import Mathlib.Tactic

set_option autoImplicit false

/-! # Sets of numbers as sorted lists of runs

A run is an interval of numbers. A list of runs is separated (`SepFrom`) when the runs are not empty,
lie in increasing order and do not even touch: every set has one such list, with the fewest runs.

`take n` cuts `n` numbers off the first run that is long enough; `put r` adds a run and combines it
with the runs it touches. Both keep the list separated, and each has one lemma about the numbers the
list covers and one about how many there are.
-/

namespace Runs

/-- The numbers from `start` on, `len` of them. -/
structure Run where
  start : Nat
  len : Nat
  deriving DecidableEq, Repr

/-- The first number behind the run. -/
def Run.stop (r : Run) : Nat := r.start + r.len

def Run.Contains (r : Run) (q : Nat) : Prop := r.start ≤ q ∧ q < r.stop

/-- The numbers of a list of runs. -/
def Covers (rs : List Run) (q : Nat) : Prop := ∃ r ∈ rs, r.Contains q

/-- How many numbers there are. -/
def total (rs : List Run) : Nat := (rs.map Run.len).sum

/-- The runs are not empty, in order and apart, and nothing is below `lo`. -/
def SepFrom : Nat → List Run → Prop
  | _, [] => True
  | lo, r :: rs => lo ≤ r.start ∧ 0 < r.len ∧ SepFrom (r.stop + 1) rs

variable {rs : List Run} {r b : Run} {lo lo' n p q : Nat}

@[simp] theorem covers_nil : ¬ Covers [] q := by simp [Covers]

@[simp] theorem covers_cons : Covers (r :: rs) q ↔ r.Contains q ∨ Covers rs q := by simp [Covers]

@[simp] theorem total_nil : total [] = 0 := rfl

@[simp] theorem total_cons : total (r :: rs) = r.len + total rs := by simp [total]

namespace SepFrom

theorem mono (h : SepFrom lo rs) (hlo : lo' ≤ lo) : SepFrom lo' rs := by
  cases rs with
  | nil => trivial
  | cons r rs => exact ⟨hlo.trans h.1, h.2⟩

/-- Nothing is in front of the first run. -/
theorem raise (h : SepFrom lo (r :: rs)) (hlo : lo' ≤ r.start) : SepFrom lo' (r :: rs) :=
  ⟨hlo, h.2⟩

theorem le_of_covers (h : SepFrom lo rs) (hq : Covers rs q) : lo ≤ q := by
  induction rs generalizing lo with
  | nil => exact absurd hq covers_nil
  | cons r rs ih =>
      obtain ⟨hle, -, hrs⟩ := h
      rcases covers_cons.mp hq with hr | hq
      · exact hle.trans hr.1
      · have h₁ := ih hrs hq
        have h₂ : r.start ≤ r.stop := Nat.le_add_right _ _
        omega

theorem start_ge (h : SepFrom lo rs) (hr : r ∈ rs) : lo ≤ r.start ∧ 0 < r.len := by
  induction rs generalizing lo with
  | nil => exact absurd hr (by simp)
  | cons s rs ih =>
      obtain ⟨hle, hpos, hrs⟩ := h
      rcases List.mem_cons.mp hr with rfl | hr
      · exact ⟨hle, hpos⟩
      · obtain ⟨h₁, h₂⟩ := ih hrs hr
        have h₃ : s.start ≤ s.stop := Nat.le_add_right _ _
        exact ⟨by omega, h₂⟩

/-- The runs are apart. -/
theorem pairwise (h : SepFrom lo rs) : rs.Pairwise fun r s => r.stop < s.start := by
  induction rs generalizing lo with
  | nil => exact List.Pairwise.nil
  | cons r rs ih =>
      obtain ⟨-, -, hrs⟩ := h
      exact List.pairwise_cons.mpr ⟨fun s hs => (hrs.start_ge hs).1, ih hrs⟩

/-- Each run holds a number, so there are no more runs than numbers. -/
theorem length_le_total (h : SepFrom lo rs) : rs.length ≤ total rs := by
  induction rs generalizing lo with
  | nil => exact le_rfl
  | cons r rs ih =>
      obtain ⟨-, hpos, hrs⟩ := h
      have h₁ := ih hrs
      rw [List.length_cons, total_cons]
      omega

end SepFrom

/-- There are no more numbers than fit between the bounds. -/
theorem SepFrom.add_total_le {hi : Nat} (h : SepFrom lo rs) (hlo : lo ≤ hi)
    (hhi : ∀ q, Covers rs q → q < hi) : lo + total rs ≤ hi := by
  induction rs generalizing lo with
  | nil => simpa using hlo
  | cons r rs ih =>
      obtain ⟨hle, hpos, hrs⟩ := h
      have hlast : r.stop - 1 < hi := hhi _ (covers_cons.mpr (Or.inl (by
        unfold Run.Contains Run.stop
        omega)))
      have hstop : r.stop ≤ hi := by omega
      rw [total_cons]
      cases rs with
      | nil =>
          rw [total_nil]
          unfold Run.stop at hstop
          omega
      | cons s rs =>
          have hs : s.start < hi := hhi _ (covers_cons.mpr (Or.inr (covers_cons.mpr (Or.inl
            ⟨le_refl _, by
              have h₁ := hrs.2.1
              unfold Run.stop
              omega⟩))))
          have hle' := hrs.1
          have h₁ := ih hrs (by omega) fun q hq => hhi q (covers_cons.mpr (Or.inr hq))
          unfold Run.stop at h₁
          omega

/-! ## Taking numbers away -/

/-- Cut `n` numbers off the first run that has as many. -/
def take (n : Nat) : List Run → Option Nat × List Run
  | [] => (none, [])
  | b :: rs =>
      if n < b.len then (some b.start, ⟨b.start + n, b.len - n⟩ :: rs)
      else if b.len = n then (some b.start, rs)
      else ((take n rs).1, b :: (take n rs).2)

theorem take_eq_none : (take n rs).1 = none ↔ ∀ r ∈ rs, r.len < n := by
  induction rs with
  | nil => simp [take]
  | cons b rs ih =>
      rw [take, List.forall_mem_cons]
      split_ifs with h₁ h₂
      · exact iff_of_false (by simp) fun h => by omega
      · exact iff_of_false (by simp) fun h => by omega
      · rw [ih]
        exact ⟨fun h => ⟨by omega, h⟩, fun h => h.2⟩

/-- Nothing is taken when no run is long enough. -/
theorem take_of_none (h : (take n rs).1 = none) : (take n rs).2 = rs := by
  induction rs with
  | nil => rfl
  | cons b rs ih =>
      rw [take] at h ⊢
      split_ifs at h ⊢ with h₁ h₂
      exact congrArg (b :: ·) (ih h)

theorem SepFrom.take (h : SepFrom lo rs) : SepFrom lo (Runs.take n rs).2 := by
  induction rs generalizing lo with
  | nil => trivial
  | cons b rs ih =>
      obtain ⟨hle, hpos, hrs⟩ := h
      rw [Runs.take]
      split_ifs with h₁ h₂
      · have hstop : (⟨b.start + n, b.len - n⟩ : Run).stop = b.stop := by
          unfold Run.stop
          dsimp only
          omega
        refine ⟨hle.trans (Nat.le_add_right _ _), Nat.sub_pos_of_lt h₁, ?_⟩
        rw [hstop]
        exact hrs
      · refine hrs.mono ?_
        unfold Run.stop
        omega
      · exact ⟨hle, hpos, ih hrs⟩

/-- What is taken is a run of the numbers covered, which the rest does not cover. -/
theorem SepFrom.covers_take (h : SepFrom lo rs) (hp : (Runs.take n rs).1 = some p) (q : Nat) :
    (Covers rs q ↔ Covers (Runs.take n rs).2 q ∨ (p ≤ q ∧ q < p + n)) ∧
      ¬ (Covers (Runs.take n rs).2 q ∧ p ≤ q ∧ q < p + n) := by
  induction rs generalizing lo q with
  | nil => cases hp
  | cons b rs ih =>
      obtain ⟨-, -, hrs⟩ := h
      have hlow : Covers rs q → b.stop + 1 ≤ q := hrs.le_of_covers
      rw [Runs.take] at hp ⊢
      split_ifs at hp ⊢ with h₁ h₂
      · cases hp
        simp only [covers_cons, Run.Contains, Run.stop] at hlow ⊢
        constructor
        · constructor
          · rintro (hq | hq)
            · by_cases hc : q < b.start + n
              · exact Or.inr ⟨hq.1, hc⟩
              · exact Or.inl (Or.inl ⟨by omega, by omega⟩)
            · exact Or.inl (Or.inr hq)
          · rintro ((hq | hq) | hq)
            · exact Or.inl ⟨by omega, by omega⟩
            · exact Or.inr hq
            · exact Or.inl ⟨hq.1, by omega⟩
        · rintro ⟨hq | hq, hq'⟩
          · omega
          · have h₃ := hlow hq
            omega
      · cases hp
        simp only [covers_cons, Run.Contains, Run.stop] at hlow ⊢
        rw [h₂]
        refine ⟨or_comm, ?_⟩
        rintro ⟨hq, hq'⟩
        have h₃ := hlow hq
        omega
      · -- the run taken lies behind this one
        obtain ⟨hiff, hdisj⟩ := ih hrs hp q
        simp only [covers_cons]
        constructor
        · rw [hiff, or_assoc]
        · rintro ⟨hq | hq, hq'⟩
          · have h₃ := hrs.le_of_covers (hiff.mpr (Or.inr hq'))
            have h₄ := hq.2
            omega
          · exact hdisj ⟨hq, hq'⟩

theorem total_take (hp : (Runs.take n rs).1 = some p) : total (Runs.take n rs).2 + n = total rs := by
  induction rs with
  | nil => cases hp
  | cons b rs ih =>
      rw [Runs.take] at hp ⊢
      split_ifs at hp ⊢ with h₁ h₂
      · simp only [total_cons]
        omega
      · simp only [total_cons]
        omega
      · have h₃ := ih hp
        simp only [total_cons]
        omega

/-! ## Adding a run -/

/-- Put `b` in front, combined with the next run if they touch. -/
def join (b : Run) : List Run → List Run
  | [] => [b]
  | c :: rs => if b.stop = c.start then ⟨b.start, b.len + c.len⟩ :: rs else b :: c :: rs

/-- Add the run `r`, and combine it with the runs it touches. -/
def put (r : Run) : List Run → List Run
  | [] => [r]
  | b :: rs =>
      if b.stop = r.start then join ⟨b.start, b.len + r.len⟩ rs
      else if b.start = r.stop then ⟨r.start, b.len + r.len⟩ :: rs
      else if b.start > r.stop then r :: b :: rs
      else b :: put r rs

/-- Two runs that touch are one. -/
theorem contains_join {c : Run} (h : b.stop = c.start) :
    (⟨b.start, b.len + c.len⟩ : Run).Contains q ↔ b.Contains q ∨ c.Contains q := by
  simp only [Run.Contains, Run.stop] at h ⊢
  omega

theorem covers_join : Covers (join b rs) q ↔ b.Contains q ∨ Covers rs q := by
  cases rs with
  | nil => simp [join]
  | cons c rs =>
      rw [join]
      split_ifs with h
      · rw [covers_cons, covers_cons, contains_join h, or_assoc]
      · rw [covers_cons]

theorem total_join : total (join b rs) = b.len + total rs := by
  cases rs with
  | nil => simp [join]
  | cons c rs =>
      rw [join]
      split_ifs
      · simp only [total_cons]
        omega
      · rw [total_cons]

/-- The next run may touch the new one, but begins behind it. -/
theorem SepFrom.join (h : SepFrom lo' rs) (hlo : lo ≤ b.start) (hpos : 0 < b.len)
    (hnext : ∀ c ∈ rs, b.stop ≤ c.start) : SepFrom lo (Runs.join b rs) := by
  cases rs with
  | nil => exact ⟨hlo, hpos, trivial⟩
  | cons c rs =>
      obtain ⟨-, hcpos, hcs⟩ := h
      have hle := hnext c List.mem_cons_self
      rw [Runs.join]
      split_ifs with hc
      · have hstop : (⟨b.start, b.len + c.len⟩ : Run).stop = c.stop := by
          unfold Run.stop at *
          dsimp only
          omega
        refine ⟨hlo, Nat.add_pos_left hpos _, ?_⟩
        rw [hstop]
        exact hcs
      · exact ⟨hlo, hpos, by omega, hcpos, hcs⟩

theorem covers_put : Covers (put r rs) q ↔ Covers rs q ∨ r.Contains q := by
  induction rs with
  | nil => simp [put]
  | cons b rs ih =>
      rw [put]
      split_ifs with h₁ h₂ h₃
      · rw [covers_join, contains_join h₁, covers_cons]
        exact or_right_comm
      · rw [covers_cons, covers_cons, Nat.add_comm b.len, contains_join h₂.symm, or_assoc, or_comm]
      · rw [covers_cons, or_comm]
      · rw [covers_cons, covers_cons, ih, or_assoc]

theorem total_put : total (put r rs) = total rs + r.len := by
  induction rs with
  | nil => simp [put]
  | cons b rs ih =>
      rw [put]
      split_ifs with h₁ h₂ h₃
      · simp only [total_join, total_cons]
        omega
      · simp only [total_cons]
        omega
      · simp only [total_cons]
        omega
      · simp only [total_cons, ih]
        omega

/-- Adding a run of new numbers. -/
theorem SepFrom.put (h : SepFrom lo rs) (hlo : lo ≤ r.start) (hpos : 0 < r.len)
    (hnew : ∀ q, r.Contains q → ¬ Covers rs q) : SepFrom lo (Runs.put r rs) := by
  induction rs generalizing lo with
  | nil => exact ⟨hlo, hpos, trivial⟩
  | cons b rs ih =>
      obtain ⟨hle, hbpos, hrs⟩ := h
      have hnew' : ∀ q, r.Contains q → ¬ Covers rs q := fun q hq hc =>
        hnew q hq (covers_cons.mpr (Or.inr hc))
      have hb : ∀ q, r.Contains q → ¬ b.Contains q := fun q hq hc =>
        hnew q hq (covers_cons.mpr (Or.inl hc))
      rw [Runs.put]
      split_ifs with h₁ h₂ h₃
      · refine hrs.join hle (Nat.add_pos_left hbpos _) fun c hc => ?_
        -- a run that begins in front of the end of the new one would share a number with it
        obtain ⟨hcle, hcpos⟩ := hrs.start_ge hc
        by_contra hlt
        refine hnew' c.start ⟨?_, ?_⟩ ⟨c, hc, le_refl _, ?_⟩
        · unfold Run.stop at h₁ hcle
          omega
        · unfold Run.stop at h₁ hlt ⊢
          dsimp only at hlt
          omega
        · unfold Run.stop
          omega
      · refine ⟨hlo, Nat.add_pos_right _ hpos, ?_⟩
        have hstop : (⟨r.start, b.len + r.len⟩ : Run).stop = b.stop := by
          unfold Run.stop at *
          dsimp only
          omega
        rw [hstop]
        exact hrs
      · exact ⟨hlo, hpos, h₃, hbpos, hrs⟩
      · -- the new run lies behind `b`, and does not touch it
        refine ⟨hle, hbpos, ih hrs ?_ hnew'⟩
        by_contra hlt
        rcases Nat.lt_or_ge r.start b.start with hrb | hrb
        · exact hb b.start ⟨hrb.le, by omega⟩ ⟨le_refl _, by unfold Run.stop; omega⟩
        · exact hb r.start ⟨le_refl _, by unfold Run.stop; omega⟩ ⟨hrb, by omega⟩

end Runs
