import Mathlib.Data.List.GetD
import Mathlib.Data.List.Induction
import Mathlib.Data.List.TakeWhile
import RTThread.Dfs.Path

set_option autoImplicit false

/-! # The rounds of `dfs_normalize_path`

Between the two pointers of the loop lie characters that are no longer needed: what was written stands in
front of `dst`, and what is still to be read behind `src`. `At` says this of a buffer; the lemmas of this
file tell for each inner loop, and for a round of the loop, what it writes and what it leaves to read.
-/

namespace RTThread.Dfs

open Paths

/-! ## The buffer between the pointers -/

/-- What was written at `dst` is `w`, and what is left to read at `src` is `r`. -/
def At (b : Buffer) (src dst : Nat) (w r : List Char) : Prop :=
  ∃ gap, b = w ++ (gap ++ (r ++ ['\x00'])) ∧ dst = w.length ∧ src = w.length + gap.length

namespace At

variable {b : Buffer} {src dst i : Nat} {w v u r : List Char} {c : Char}

theorem length (h : At b src dst w r) : b.length = src + r.length + 1 := by
  obtain ⟨gap, rfl, -, rfl⟩ := h
  simp only [List.length_append, List.length_singleton]
  omega

/-- The next characters that are read. -/
theorem rd (h : At b src dst w r) (hi : i ≤ r.length) : b.rd (src + i) = .ok (r.getD i '\x00') := by
  obtain ⟨gap, rfl, -, rfl⟩ := h
  have hget : (w ++ (gap ++ (r ++ ['\x00'])))[w.length + gap.length + i]? = some (r.getD i '\x00') := by
    rw [Nat.add_assoc, List.getElem?_append_right (Nat.le_add_right _ _), Nat.add_sub_cancel_left,
      List.getElem?_append_right (Nat.le_add_right _ _), Nat.add_sub_cancel_left]
    by_cases h : i < r.length
    · rw [List.getElem?_append_left h, List.getElem?_eq_getElem h, List.getD_eq_getElem _ _ h]
    · rw [List.getElem?_append_right (Nat.le_of_not_lt h), List.getD_eq_default _ _ (Nat.le_of_not_lt h),
        Nat.sub_eq_zero_of_le hi]
      rfl
  unfold Buffer.rd
  rw [hget]

theorem rd_cons (h : At b src dst w (c :: r)) : b.rd src = .ok c :=
  h.rd (Nat.zero_le _)

theorem rd_nil (h : At b src dst w []) : b.rd src = .ok '\x00' :=
  h.rd (Nat.zero_le _)

/-- `src` goes on. -/
theorem advance (h : At b src dst w (u ++ r)) : At b (src + u.length) dst w r := by
  obtain ⟨gap, hb, hd, hs⟩ := h
  refine ⟨gap ++ u, ?_, hd, ?_⟩
  · rw [hb]
    simp only [List.append_assoc]
  · rw [hs, List.length_append]
    omega

theorem advance_one (h : At b src dst w (c :: r)) : At b (src + 1) dst w r :=
  advance (u := [c]) h

/-- `dst` goes back. -/
theorem retreat (h : At b src dst (w ++ v) r) : At b src w.length w r := by
  obtain ⟨gap, hb, -, hs⟩ := h
  refine ⟨v ++ gap, ?_, rfl, ?_⟩
  · rw [hb]
    simp only [List.append_assoc]
  · rw [hs, List.length_append, List.length_append]
    omega

/-- A character is read and one is written. -/
theorem copy (h : At b src dst w (c :: r)) (c' : Char) : ∃ b',
    b.wr dst c' = .ok b' ∧ At b' (src + 1) (dst + 1) (w ++ [c']) r := by
  obtain ⟨gap, rfl, rfl, rfl⟩ := h
  obtain ⟨x, gap', hgap⟩ : ∃ x gap', gap ++ [c] = x :: gap' := by
    cases gap with
    | nil => exact ⟨c, [], rfl⟩
    | cons x gap => exact ⟨x, gap ++ [c], rfl⟩
  have hlen : gap.length = gap'.length := by
    have h₁ := congrArg List.length hgap
    simpa using h₁
  have hb : w ++ (gap ++ (c :: r ++ ['\x00'])) = w ++ x :: (gap' ++ (r ++ ['\x00'])) := by
    have h₁ : gap ++ (c :: r ++ ['\x00']) = (gap ++ [c]) ++ (r ++ ['\x00']) := by simp
    rw [h₁, hgap, List.cons_append]
  refine ⟨w ++ c' :: (gap' ++ (r ++ ['\x00'])), ?_, gap', ?_, ?_, ?_⟩
  · rw [hb]
    unfold Buffer.wr
    rw [if_pos (by simp), List.set_append_right (h := le_refl _), Nat.sub_self, List.set_cons_zero]
  · simp
  · simp
  · rw [List.length_append, List.length_singleton, hlen]
    omega

end At

/-! ## The inner loops -/

section Loops

variable {b : Buffer} {src dst fuel : Nat} {w v r t name : List Char}

theorem skipSlashes_spec (h : At b src dst w r) (hf : r.length < fuel) : ∃ src',
    skipSlashes b fuel src = .ok src' ∧ At b src' dst w (r.dropWhile (· = '/')) := by
  induction r generalizing src fuel with
  | nil =>
    obtain ⟨fuel, rfl⟩ : ∃ n, fuel = n + 1 := ⟨fuel - 1, by simp at hf; omega⟩
    refine ⟨src, ?_, h⟩
    rw [skipSlashes, h.rd_nil]
    rfl
  | cons c r ih =>
    obtain ⟨fuel, rfl⟩ : ∃ n, fuel = n + 1 := ⟨fuel - 1, by simp at hf; omega⟩
    rw [skipSlashes, h.rd_cons]
    by_cases hc : c = '/'
    · rw [List.dropWhile_cons_of_pos (by simpa using hc)]
      obtain ⟨src', hsrc, hat⟩ := ih h.advance_one (by simpa using hf)
      refine ⟨src', ?_, hat⟩
      rw [← hsrc]
      exact if_pos hc
    · rw [List.dropWhile_cons_of_neg (by simpa using hc)]
      refine ⟨src, ?_, h⟩
      exact if_neg hc

/-- `src` stops one character too far. -/
theorem eraseSlashes_spec (h : At b src dst w r) (hf : r.length + 1 < fuel) : ∃ src',
    eraseSlashes b fuel '/' src = .ok (src' + 1) ∧ At b src' dst w (r.dropWhile (· = '/')) := by
  induction r generalizing src fuel with
  | nil =>
    obtain ⟨fuel, rfl⟩ : ∃ n, fuel = n + 2 := ⟨fuel - 2, by simp at hf; omega⟩
    refine ⟨src, ?_, h⟩
    rw [eraseSlashes, if_pos rfl, h.rd_nil]
    rfl
  | cons c r ih =>
    obtain ⟨fuel, rfl⟩ : ∃ n, fuel = n + 2 := ⟨fuel - 2, by simp at hf; omega⟩
    rw [eraseSlashes, if_pos rfl, h.rd_cons]
    by_cases hc : c = '/'
    · rw [List.dropWhile_cons_of_pos (by simpa using hc), hc]
      exact ih h.advance_one (by simpa using hf)
    · rw [List.dropWhile_cons_of_neg (by simpa using hc)]
      refine ⟨src, ?_, h⟩
      exact if_neg hc

/-- A name is copied up to the slash, or to the end of the path. -/
theorem copyName_spec (h : At b src dst w (name ++ r)) (hname : ∀ c ∈ name, c ≠ '\x00' ∧ c ≠ '/')
    (hr : r = [] ∨ ∃ t, r = '/' :: t) (hf : name.length < fuel) : ∃ b' src',
    copyName fuel b src dst = .ok (r.headD '\x00', b', src' + 1, (w ++ name).length) ∧
      At b' src' (w ++ name).length (w ++ name) r := by
  induction name generalizing b src dst w fuel with
  | nil =>
    obtain ⟨fuel, rfl⟩ : ∃ n, fuel = n + 1 := ⟨fuel - 1, by simp at hf; omega⟩
    have hd : dst = w.length := h.choose_spec.2.1
    rw [List.append_nil, ← hd]
    refine ⟨b, src, ?_, h⟩
    rcases hr with rfl | ⟨t, rfl⟩
    · rw [copyName, h.rd_nil]
      rfl
    · rw [copyName, At.rd_cons h]
      rfl
  | cons c name ih =>
    obtain ⟨fuel, rfl⟩ : ∃ n, fuel = n + 1 := ⟨fuel - 1, by simp at hf; omega⟩
    obtain ⟨b₁, hwr, hat⟩ := At.copy h c
    obtain ⟨b', src', heq, hat'⟩ := ih hat (fun d hd => hname d (List.mem_cons_of_mem _ hd))
      (by simpa using hf)
    rw [List.append_assoc, List.singleton_append] at heq hat'
    refine ⟨b', src', ?_, hat'⟩
    rw [copyName, At.rd_cons h]
    refine (if_pos (hname c List.mem_cons_self)).trans ?_
    rw [hwr]
    exact heq

theorem backUp_spec (h : At b src dst (w ++ name) r) (hname : '/' ∉ name)
    (hw : w = [] ∨ ∃ v, w = v ++ ['/']) : backUp b (w ++ name).length = .ok w.length := by
  induction name using List.reverseRecOn generalizing src dst r with
  | nil =>
    rw [List.append_nil]
    rcases hw with rfl | ⟨v, rfl⟩
    · rfl
    · rw [List.length_append, List.length_singleton, backUp]
      rw [List.append_nil] at h
      have hrd : b.rd v.length = .ok '/' := by
        obtain ⟨gap, rfl, -, -⟩ := h
        unfold Buffer.rd
        rw [List.append_assoc, List.getElem?_append_right (le_refl _), Nat.sub_self]
        rfl
      rw [hrd]
      rfl
  | append_singleton name c ih =>
    rw [← List.append_assoc] at h ⊢
    rw [List.length_append, List.length_singleton, backUp]
    have hrd : b.rd (w ++ name).length = .ok c := by
      obtain ⟨gap, rfl, -, -⟩ := h
      unfold Buffer.rd
      rw [List.append_assoc, List.getElem?_append_right (le_refl _), Nat.sub_self]
      rfl
    rw [List.mem_append, not_or] at hname
    have hc : c ≠ '/' := fun he => hname.2 (by simp [he])
    rw [hrd]
    refine (if_pos hc).trans ?_
    exact ih h.retreat hname.1

/-! ## The two ends of a round -/

theorem upOne_spec (h : At b src dst (w ++ (name ++ ['/'])) r) (hname : '/' ∉ name)
    (hw : w = [] ∨ ∃ v, w = v ++ ['/']) :
    upOne b src dst = .ok (.goOn b src w.length) ∧ At b src w.length w r := by
  have hd : dst = (w ++ name).length + 1 := by
    rw [h.choose_spec.2.1]
    simp only [List.length_append, List.length_singleton]
    omega
  rw [← List.append_assoc] at h
  refine ⟨?_, h.retreat.retreat⟩
  rw [upOne, if_neg (by omega), hd, Nat.add_sub_cancel, backUp_spec h.retreat hname hw]
  rfl

theorem upOne_nil (h : At b src dst [] r) : upOne b src dst = .ok .freed := by
  have hd : dst = 0 := h.choose_spec.2.1
  rw [upOne, if_pos hd]

/-- The last name of a path. -/
theorem copyUp_last (h : At b src dst w name) (hname : ∀ c ∈ name, c ≠ '\x00' ∧ c ≠ '/') : ∃ b' src',
    copyUp b src dst = .ok (.leave b' (w ++ name).length) ∧
      At b' src' (w ++ name).length (w ++ name) [] := by
  have hlen := h.length
  rw [← List.append_nil name] at h
  obtain ⟨b', src', heq, hat⟩ := copyName_spec h hname (Or.inl rfl)
    (show name.length < b.length + 1 by omega)
  refine ⟨b', src', ?_, hat⟩
  rw [copyUp, heq]
  rfl

/-- A name and its slash, and the slashes behind it. -/
theorem copyUp_name (h : At b src dst w (name ++ '/' :: t))
    (hname : ∀ c ∈ name, c ≠ '\x00' ∧ c ≠ '/') : ∃ b' src' dst',
    copyUp b src dst = .ok (.goOn b' src' dst') ∧
      At b' src' dst' (w ++ (name ++ ['/'])) (t.dropWhile (· = '/')) := by
  have hlen := h.length
  rw [List.length_append] at hlen
  obtain ⟨b₁, s₁, heq, hat⟩ := copyName_spec h hname (Or.inr ⟨t, rfl⟩)
    (show name.length < b.length + 1 by omega)
  obtain ⟨b₂, hwr, hat₂⟩ := hat.copy '/'
  have hlen₂ := hat₂.length
  obtain ⟨s₃, her, hat₃⟩ := eraseSlashes_spec hat₂ (show t.length + 1 < b₂.length + 1 by omega)
  rw [List.append_assoc] at hat₃
  refine ⟨b₂, s₃, _, ?_, hat₃⟩
  have hround : copyUp b src dst = (do
      let b ← b₁.wr (w ++ name).length '/'
      let src ← eraseSlashes b (b.length + 1) '/' (s₁ + 1)
      .ok (.goOn b (src - 1) ((w ++ name).length + 1))) := by
    rw [copyUp, heq]
    rfl
  have herase : (do
      let src ← eraseSlashes b₂ (b₂.length + 1) '/' (s₁ + 1)
      .ok (.goOn b₂ (src - 1) ((w ++ name).length + 1))) =
        (.ok (.goOn b₂ s₃ ((w ++ name).length + 1)) : Except Fault Round) := by
    rw [her]
    rfl
  rw [hround, hwr]
  exact herase

end Loops

/-! ## The rounds -/

section Rounds

variable {b : Buffer} {src dst : Nat} {w name t : List Char}

/-- A name of a C string. -/
def NameOf (name : List Char) : Prop := IsName '/' name ∧ '\x00' ∉ name

theorem NameOf.char (h : NameOf name) : ∀ c ∈ name, c ≠ '\x00' ∧ c ≠ '/' := by
  intro c hc
  constructor
  · rintro rfl
    exact h.2 hc
  · rintro rfl
    exact h.1.2 hc

/-- The round at a dot. -/
theorem round_of_dot {c₁ : Char} (h₀ : b.rd src = .ok '.') (h₁ : b.rd (src + 1) = .ok c₁) :
    round b src dst = if c₁ = '\x00' then copyUp b (src + 1) dst
      else if c₁ = '/' then do
        let src ← skipSlashes b (b.length + 1) (src + 2)
        .ok (.goOn b src dst)
      else if c₁ = '.' then do
        let c₂ ← b.rd (src + 2)
        if c₂ = '\x00' then upOne b (src + 2) dst
        else if c₂ = '/' then do
          let src ← skipSlashes b (b.length + 1) (src + 3)
          upOne b src dst
        else copyUp b src dst
      else copyUp b src dst := by
  rw [round, h₀]
  change (b.rd (src + 1) >>= _) = _
  rw [h₁]
  rfl

/-- A component that is neither `.` nor `..` is copied. -/
theorem round_eq_copyUp (h : At b src dst w (name ++ t)) (hname : NameOf name)
    (hdot : name ≠ ['.']) (hdots : name ≠ ['.', '.']) : round b src dst = copyUp b src dst := by
  obtain ⟨c, n₁, rfl⟩ : ∃ c n₁, name = c :: n₁ := List.exists_cons_of_ne_nil hname.1.1
  have h₀ : b.rd src = .ok c := At.rd_cons h
  by_cases hc : c = '.'
  swap
  · rw [round, h₀]
    exact if_neg hc
  obtain ⟨c₁, n₂, rfl⟩ : ∃ c₁ n₂, n₁ = c₁ :: n₂ := by
    apply List.exists_cons_of_ne_nil
    rintro rfl
    exact hdot (by rw [hc])
  obtain ⟨hnul, hslash⟩ := hname.char c₁ (by simp)
  have h₁ : b.rd (src + 1) = .ok c₁ := h.rd (by simp)
  rw [hc] at h₀
  rw [round_of_dot h₀ h₁, if_neg hnul, if_neg hslash]
  by_cases hc₁ : c₁ = '.'
  swap
  · exact if_neg hc₁
  obtain ⟨c₂, n₃, rfl⟩ : ∃ c₂ n₃, n₂ = c₂ :: n₃ := by
    apply List.exists_cons_of_ne_nil
    rintro rfl
    exact hdots (by rw [hc, hc₁])
  obtain ⟨hnul₂, hslash₂⟩ := hname.char c₂ (by simp)
  have h₂ : b.rd (src + 2) = .ok c₂ := h.rd (by simp)
  rw [if_pos hc₁, h₂]
  refine (if_neg hnul₂).trans ?_
  exact if_neg hslash₂

theorem round_nil (h : At b src dst w []) : ∃ b' src',
    round b src dst = .ok (.leave b' w.length) ∧ At b' src' w.length w [] := by
  obtain ⟨b', src', heq, hat⟩ := copyUp_last h fun c hc => absurd hc List.not_mem_nil
  rw [List.append_nil] at heq hat
  refine ⟨b', src', ?_, hat⟩
  rw [← heq, round, h.rd_nil]
  rfl

theorem round_last (h : At b src dst w name) (hname : NameOf name) (hdot : name ≠ ['.'])
    (hdots : name ≠ ['.', '.']) : ∃ b' src',
    round b src dst = .ok (.leave b' (w ++ name).length) ∧
      At b' src' (w ++ name).length (w ++ name) [] := by
  rw [round_eq_copyUp ((List.append_nil name).symm ▸ h) hname hdot hdots]
  exact copyUp_last h hname.char

theorem round_name (h : At b src dst w (name ++ '/' :: t)) (hname : NameOf name)
    (hdot : name ≠ ['.']) (hdots : name ≠ ['.', '.']) : ∃ b' src' dst',
    round b src dst = .ok (.goOn b' src' dst') ∧
      At b' src' dst' (w ++ (name ++ ['/'])) (t.dropWhile (· = '/')) := by
  rw [round_eq_copyUp h hname hdot hdots]
  exact copyUp_name h hname.char

/-- `.` at the end. -/
theorem round_dot_last (h : At b src dst w ['.']) : ∃ b' src',
    round b src dst = .ok (.leave b' w.length) ∧ At b' src' w.length w [] := by
  obtain ⟨b', src', heq, hat⟩ := copyUp_last h.advance_one fun c hc => absurd hc List.not_mem_nil
  rw [List.append_nil] at heq hat
  have h₁ : b.rd (src + 1) = .ok '\x00' := h.advance_one.rd_nil
  refine ⟨b', src', ?_, hat⟩
  rw [← heq, round_of_dot h.rd_cons h₁, if_pos rfl]

/-- `./` -/
theorem round_dot (h : At b src dst w ('.' :: '/' :: t)) : ∃ src',
    round b src dst = .ok (.goOn b src' dst) ∧ At b src' dst w (t.dropWhile (· = '/')) := by
  have h₂ : At b (src + 2) dst w t := h.advance_one.advance_one
  have hlen := h₂.length
  obtain ⟨src', heq, hat⟩ := skipSlashes_spec h₂ (show t.length < b.length + 1 by omega)
  have h₁ : b.rd (src + 1) = .ok '/' := h.advance_one.rd_cons
  have hgo : (do
      let src ← skipSlashes b (b.length + 1) (src + 2)
      .ok (.goOn b src dst)) = (.ok (.goOn b src' dst) : Except Fault Round) := by
    rw [heq]
    rfl
  refine ⟨src', ?_, hat⟩
  rw [← hgo, round_of_dot h.rd_cons h₁]
  rfl

/-- `..` at the end. -/
theorem round_dots_last (h : At b src dst w ['.', '.']) :
    round b src dst = upOne b (src + 2) dst ∧ At b (src + 2) dst w [] := by
  have h₂ : At b (src + 2) dst w [] := h.advance_one.advance_one
  refine ⟨?_, h₂⟩
  rw [round_of_dot h.rd_cons h.advance_one.rd_cons, h₂.rd_nil]
  rfl

/-- `../` -/
theorem round_dots (h : At b src dst w ('.' :: '.' :: '/' :: t)) : ∃ src',
    round b src dst = upOne b src' dst ∧ At b src' dst w (t.dropWhile (· = '/')) := by
  have h₂ : At b (src + 2) dst w ('/' :: t) := h.advance_one.advance_one
  have h₃ : At b (src + 3) dst w t := h₂.advance_one
  have hlen := h₃.length
  obtain ⟨src', heq, hat⟩ := skipSlashes_spec h₃ (show t.length < b.length + 1 by omega)
  have hgo : (do
      let src ← skipSlashes b (b.length + 1) (src + 3)
      upOne b src dst) = upOne b src' dst := by
    rw [heq]
    rfl
  refine ⟨src', ?_, hat⟩
  rw [← hgo, round_of_dot h.rd_cons h.advance_one.rd_cons, h₂.rd_cons]
  rfl

end Rounds

end RTThread.Dfs
