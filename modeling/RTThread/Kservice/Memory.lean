import RTThread.Lib.Transfer

set_option autoImplicit false

/-! # Setting and copying memory (`kservice.c`)

`rt_memset` and `rt_memcpy` move whole words where they can and bytes where they cannot; with
`RT_USING_TINY_SIZE` they move bytes only. A word, the `long` of the machine, has `w` bytes in either byte
order. `word_memory` says that the two builds do the same and which bytes change.
-/

namespace RTThread.Kservice

/-- A byte at each address. -/
abbrev Memory := Nat → UInt8

inductive Endian
  | little
  | big

/-- The weight of the byte `k` of a word. -/
def Endian.place (e : Endian) (w k : Nat) : Nat :=
  match e with
  | .little => k
  | .big => w - 1 - k

/-- The number with the given bytes, from the lowest one on. -/
def wordOf : Nat → (Nat → UInt8) → Nat
  | 0, _ => 0
  | w + 1, f => (f 0).toNat + 256 * wordOf w fun k => f (k + 1)

/-- The byte of a number with the weight `k`. -/
def byteOf (v k : Nat) : UInt8 := UInt8.ofNat (v / 256 ^ k)

def Memory.loadByte (m : Memory) (a : Nat) : UInt8 := m a

def Memory.storeByte (m : Memory) (a : Nat) (b : UInt8) : Memory := Function.update m a b

/-- A word is read. -/
def Memory.loadWord (e : Endian) (w : Nat) (m : Memory) (a : Nat) : Nat :=
  wordOf w fun k => m (a + e.place w k)

/-- A word is written. -/
def Memory.storeWord (e : Endian) (w : Nat) (m : Memory) (a v : Nat) : Memory := fun x =>
  if a ≤ x ∧ x < a + w then byteOf v (e.place w (x - a)) else m x

/-- `UNALIGNED` -/
def unaligned (w a : Nat) : Bool := a % w ≠ 0

/-! ## `rt_memset` -/

/-- `buffer`, with the byte `d` in each of its bytes -/
def fillWord (w d : Nat) : Nat :=
  if w = 4 then
    let buffer := (d <<< 8) ||| d
    buffer ||| (buffer <<< 16)
  else (List.range w).foldl (fun buffer _ => (buffer <<< 8) ||| d) 0

/-- `rt_memset` with `RT_USING_TINY_SIZE` -/
def rtMemsetTiny (m : Memory) (s : Nat) (c : Int) (count : Nat) : Memory :=
  (Transfer.loop 1 (fun i m => m.storeByte (s + i) (UInt8.ofInt c)) (0, count, m)).2.2

/-- `rt_memset` -/
def rtMemset (e : Endian) (w : Nat) (m : Memory) (s : Nat) (c : Int) (count : Nat) : Memory :=
  let d := (c % 256).toNat
  let bytes := Transfer.loop 1 fun i m => m.storeByte (s + i) (UInt8.ofNat d)
  if ¬ count < w ∧ ¬ unaligned w s then
    let word i (m : Memory) := m.storeWord e w (s + i) (fillWord w d)
    let four i m := word (i + 3 * w) (word (i + 2 * w) (word (i + w) (word i m)))
    (bytes (Transfer.loop w word (Transfer.loop (w * 4) four (0, count, m)))).2.2
  else (bytes (0, count, m)).2.2

/-! ## `rt_memcpy` -/

/-- `*dst++ = *src++` for the byte at an offset -/
def copyByte (dst src i : Nat) (m : Memory) : Memory := m.storeByte (dst + i) (m.loadByte (src + i))

/-- `*aligned_dst++ = *aligned_src++` for the word at an offset -/
def copyWord (e : Endian) (w dst src i : Nat) (m : Memory) : Memory :=
  m.storeWord e w (dst + i) (m.loadWord e w (src + i))

/-- The loop from the last byte down. -/
def copyBack (dst src : Nat) : Nat → Memory → Memory
  | 0, m => m
  | len + 1, m => copyBack dst src len (copyByte dst src len m)

/-- `rt_memcpy` with `RT_USING_TINY_SIZE` -/
def rtMemcpyTiny (m : Memory) (dst src count : Nat) : Memory :=
  if dst ≤ src ∨ src + count < dst then (Transfer.loop 1 (copyByte dst src) (0, count, m)).2.2
  else copyBack dst src count m

/-- `rt_memcpy`. Its `len` is an `int`; there is no result for a count that does not fit. -/
def rtMemcpy (e : Endian) (w : Nat) (m : Memory) (dst src count : Nat) : Option Memory :=
  let len := count
  if 2 ^ 31 ≤ len then none
  else
    let bytes := Transfer.loop 1 (copyByte dst src)
    if ¬ len < w * 4 ∧ ¬ (unaligned w src ∨ unaligned w dst) then
      let word := copyWord e w dst src
      let four i m := word (i + 3 * w) (word (i + 2 * w) (word (i + w) (word i m)))
      some (bytes (Transfer.loop w word (Transfer.loop (w * 4) four (0, len, m)))).2.2
    else some (bytes (0, len, m)).2.2

/-! ## Words and bytes -/

variable {e : Endian} {w : Nat} {m : Memory}

theorem place_lt {k : Nat} (hk : k < w) : e.place w k < w := by
  cases e
  · exact hk
  · simp only [Endian.place]
    omega

theorem place_place {k : Nat} (hk : k < w) : e.place w (e.place w k) = k := by
  cases e
  · rfl
  · simp only [Endian.place]
    omega

/-- The bytes of a number are the ones it was made of. -/
theorem byteOf_wordOf (f : Nat → UInt8) {k : Nat} (hk : k < w) : byteOf (wordOf w f) k = f k := by
  induction w generalizing f k with
  | zero => omega
  | succ w ih =>
      cases k with
      | zero =>
          apply UInt8.toNat_inj.mp
          have h := (f 0).toNat_lt
          simp only [byteOf, wordOf, pow_zero, Nat.div_one, UInt8.toNat_ofNat']
          omega
      | succ k =>
          have hdiv : wordOf (w + 1) f / 256 ^ (k + 1) = wordOf w (fun k => f (k + 1)) / 256 ^ k := by
            have h : (f 0).toNat < 256 := (f 0).toNat_lt
            rw [pow_succ', ← Nat.div_div_eq_div_mul, wordOf, Nat.add_mul_div_left _ _ (Nat.succ_pos 255),
              Nat.div_eq_of_lt h, Nat.zero_add]
          rw [byteOf, hdiv]
          exact ih (fun k => f (k + 1)) (by omega)

theorem shift_or {a d k : Nat} (hd : d < 2 ^ k) : (a <<< k) ||| d = a * 2 ^ k + d := by
  rw [← Nat.shiftLeft_add_eq_or_of_lt hd, Nat.shiftLeft_eq]

/-- **The fill word** has the byte `d` everywhere. -/
theorem byteOf_fillWord {d k : Nat} (hw : w = 4 ∨ w = 8) (hd : d < 256) (hk : k < w) :
    byteOf (fillWord w d) k = UInt8.ofNat d := by
  have hnat : (UInt8.ofNat d).toNat = d := by
    rw [UInt8.toNat_ofNat']
    omega
  suffices h : fillWord w d = wordOf w fun _ => UInt8.ofNat d by rw [h, byteOf_wordOf _ hk]
  rcases hw with rfl | rfl
  · have h₁ : (d <<< 8) ||| d = d * 2 ^ 8 + d := shift_or (by omega)
    have h₂ : (d * 2 ^ 8 + d) ||| ((d * 2 ^ 8 + d) <<< 16) = (d * 2 ^ 8 + d) * 2 ^ 16 + (d * 2 ^ 8 + d) := by
      rw [Nat.or_comm, shift_or (by omega)]
    simp only [fillWord, if_true, h₁, h₂, wordOf, hnat]
    omega
  · have h : ∀ a, (a <<< 8) ||| d = a * 2 ^ 8 + d := fun a => shift_or (by omega)
    have hne : ¬ (8 = 4) := by omega
    simp only [fillWord, hne, if_false, h, wordOf, hnat, List.range, List.range.loop,
      List.foldl_cons, List.foldl_nil]
    omega

/-! ## Ranges of bytes -/

/-- `n` bytes from the offset `i` on are set to `b`. -/
def filled (s : Nat) (b : UInt8) (i n : Nat) (m : Memory) : Memory := fun x =>
  if s + i ≤ x ∧ x < s + i + n then b else m x

/-- `n` bytes from the offset `i` on are copied. -/
def copied (dst src i n : Nat) (m : Memory) : Memory := fun x =>
  if dst + i ≤ x ∧ x < dst + i + n then m (src + (x - dst)) else m x

/-- The two ranges have no byte in common. -/
def Disjoint (dst src count : Nat) : Prop := dst + count ≤ src ∨ src + count ≤ dst

variable {s dst src count : Nat} {b : UInt8}

theorem filled_additive : Transfer.Additive count (filled s b) := by
  intro i n k m _
  funext x
  unfold filled
  split_ifs
  all_goals first | rfl | omega

theorem copied_additive (hd : Disjoint dst src count) : Transfer.Additive count (copied dst src) := by
  intro i n k m hle
  funext x
  unfold Disjoint at hd
  unfold copied
  split_ifs
  all_goals first | rfl | omega

theorem storeByte_eq (i : Nat) (m : Memory) : m.storeByte (s + i) b = filled s b i 1 m := by
  funext x
  unfold Memory.storeByte filled
  by_cases h : x = s + i
  · rw [h, Function.update_self, if_pos (by omega)]
  · rw [Function.update_of_ne h, if_neg (by omega)]

theorem copyByte_eq (i : Nat) (m : Memory) : copyByte dst src i m = copied dst src i 1 m := by
  funext x
  unfold copyByte Memory.storeByte Memory.loadByte copied
  by_cases h : x = dst + i
  · rw [h, Function.update_self, if_pos (by omega), Nat.add_sub_cancel_left]
  · rw [Function.update_of_ne h, if_neg (by omega)]

theorem storeWord_eq {d : Nat} (hw : w = 4 ∨ w = 8) (hd : d < 256) (i : Nat) (m : Memory) :
    m.storeWord e w (s + i) (fillWord w d) = filled s (UInt8.ofNat d) i w m := by
  funext x
  unfold Memory.storeWord filled
  split_ifs with h
  · exact byteOf_fillWord hw hd (place_lt (by omega))
  · rfl

theorem copyWord_eq (i : Nat) (m : Memory) : copyWord e w dst src i m = copied dst src i w m := by
  funext x
  unfold copyWord Memory.storeWord Memory.loadWord copied
  split_ifs with h
  · have hk : x - (dst + i) < w := by omega
    rw [byteOf_wordOf _ (place_lt hk), place_place hk]
    congr 1
    omega
  · rfl

variable {T : Nat → Nat → Memory → Memory}

/-- Four pieces in a row. -/
theorem four_eq {word : Nat → Memory → Memory} (hT : Transfer.Additive count T)
    (hword : ∀ i m, word i m = T i w m) {i : Nat} (m : Memory) (hi : i + w * 4 ≤ count) :
    word (i + 3 * w) (word (i + 2 * w) (word (i + w) (word i m))) = T i (w * 4) m := by
  have h₂ := hT i w w m (by omega)
  have h₃ := hT i (w + w) w m (by omega)
  have h₄ := hT i (w + w + w) w m (by omega)
  rw [show i + 3 * w = i + (w + w + w) by omega, show i + 2 * w = i + (w + w) by omega, hword, hword, hword,
    hword, h₂, h₃, h₄]
  congr 1
  omega

/-- **Words and then bytes** transfer everything. -/
theorem words_bytes {word byte : Nat → Memory → Memory} (hT : Transfer.Additive count T)
    (hzero : T 0 0 m = m) (hword : ∀ i m, word i m = T i w m) (hbyte : ∀ i m, byte i m = T i 1 m) :
    (Transfer.loop 1 byte (Transfer.loop w word (Transfer.loop (w * 4)
      (fun i m => word (i + 3 * w) (word (i + 2 * w) (word (i + w) (word i m)))) (0, count, m)))).2.2 =
      T 0 count m := by
  have h₀ : Transfer.Done count T m (0, count, m) := ⟨by simp, hzero.symm⟩
  have h₁ := Transfer.loop_done hT (fun i m hi => four_eq hT hword m hi) h₀
  have h₂ := Transfer.loop_done hT (fun i m _ => hword i m) h₁
  exact Transfer.loop_bytes hT (fun i m _ => hbyte i m) h₂

theorem bytes_only {byte : Nat → Memory → Memory} (hT : Transfer.Additive count T) (hzero : T 0 0 m = m)
    (hbyte : ∀ i m, byte i m = T i 1 m) : (Transfer.loop 1 byte (0, count, m)).2.2 = T 0 count m :=
  Transfer.loop_bytes hT (fun i m _ => hbyte i m) ⟨by simp, hzero.symm⟩

theorem filled_zero : filled s b 0 0 m = m := by
  funext x
  exact if_neg (by omega)

theorem copied_zero : copied dst src 0 0 m = m := by
  funext x
  exact if_neg (by omega)

/-! ## The functions -/

theorem low_byte (c : Int) : UInt8.ofNat (c % 256).toNat = UInt8.ofInt c := by
  rfl

theorem rtMemsetTiny_eq (c : Int) : rtMemsetTiny m s c count = filled s (UInt8.ofInt c) 0 count m :=
  bytes_only filled_additive filled_zero storeByte_eq

theorem rtMemset_eq (hw : w = 4 ∨ w = 8) (c : Int) :
    rtMemset e w m s c count = filled s (UInt8.ofInt c) 0 count m := by
  have hd : (c % 256).toNat < 256 := by omega
  rw [← low_byte]
  unfold rtMemset
  split_ifs
  · exact words_bytes filled_additive filled_zero (storeWord_eq hw hd) storeByte_eq
  · exact bytes_only filled_additive filled_zero storeByte_eq

/-- The loop from the last byte down copies the same. -/
theorem copyBack_eq (hd : Disjoint dst src count) {n : Nat} (hn : n ≤ count) (m : Memory) :
    copyBack dst src n m = copied dst src 0 n m := by
  unfold Disjoint at hd
  induction n generalizing m with
  | zero => exact copied_zero.symm
  | succ n ih =>
      rw [copyBack, ih (by omega), copyByte_eq]
      funext x
      unfold copied
      split_ifs
      all_goals first | rfl | omega

theorem rtMemcpyTiny_eq (hd : Disjoint dst src count) :
    rtMemcpyTiny m dst src count = copied dst src 0 count m := by
  unfold rtMemcpyTiny
  split_ifs
  · exact bytes_only (copied_additive hd) copied_zero copyByte_eq
  · exact copyBack_eq hd le_rfl m

theorem rtMemcpy_eq (hd : Disjoint dst src count) (hc : count < 2 ^ 31) :
    rtMemcpy e w m dst src count = some (copied dst src 0 count m) := by
  unfold rtMemcpy
  rw [if_neg (by omega)]
  split_ifs
  · exact congrArg some (words_bytes (copied_additive hd) copied_zero copyWord_eq copyByte_eq)
  · exact congrArg some (bytes_only (copied_additive hd) copied_zero copyByte_eq)

/-- **Word-wise memory routines**: for both sizes of a word, either byte order and every alignment, the
two functions do what their byte loops do, and change the bytes they should and no others. -/
theorem word_memory (e : Endian) (w : Nat) (hw : w = 4 ∨ w = 8) (m : Memory) (count : Nat)
    (hc : count ≤ 2 ^ 31 - 1) :
    (∀ s c, rtMemset e w m s c count = rtMemsetTiny m s c count ∧
      ∀ x, rtMemset e w m s c count x = if s ≤ x ∧ x < s + count then UInt8.ofInt c else m x) ∧
    ∀ dst src, Disjoint dst src count →
      rtMemcpy e w m dst src count = some (rtMemcpyTiny m dst src count) ∧
      ∀ x, rtMemcpyTiny m dst src count x =
        if dst ≤ x ∧ x < dst + count then m (src + (x - dst)) else m x := by
  constructor
  · intro s c
    rw [rtMemset_eq hw, rtMemsetTiny_eq]
    exact ⟨rfl, fun x => rfl⟩
  · intro dst src hd
    rw [rtMemcpy_eq hd (by omega), rtMemcpyTiny_eq hd]
    exact ⟨rfl, fun x => rfl⟩

/-- A block of four words, a word and a byte. -/
theorem word_memory_21 :
    rtMemcpy .little 4 (fun a => UInt8.ofNat a) 64 16 21 =
      some (rtMemcpyTiny (fun a => UInt8.ofNat a) 64 16 21) :=
  ((word_memory .little 4 (.inl rfl) (fun a => UInt8.ofNat a) 21 (by decide)).2 64 16
    (.inr (by decide))).1

end RTThread.Kservice
