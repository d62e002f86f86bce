import RTThread.Signal.Pending

set_option autoImplicit false

/-! # Masked signals and `rt_thread_handle_sig`

The loop of `rt_thread_handle_sig` runs while a signal is pending and unmasked, and takes the first
node of `si_list`, whatever its signal is. So the nodes up to the last unmasked one are handled, the
masked ones among them too. A masked signal is left alone exactly when no unmasked one was sent after
it.
-/

namespace RTThread.Siginfo.Tcb

variable {x y : Tcb} {l l₁ l₂ : List Nat} {q k : Nat}

/-- The signal of the node is unmasked. -/
def Unmasked (x : Tcb) (q : Nat) : Prop := x.sigMask.getLsbD (x.si q).siSigno = true

/-- No masked signal stands in front of an unmasked one. -/
def MaskedBehind (x : Tcb) (l : List Nat) : Prop :=
  l.Pairwise fun a b => x.Unmasked b → x.Unmasked a

/-- A handler is called for unmasked signals only, each unmasked signal that is pending is handled
once, and each masked one that is pending keeps its bit and its node. -/
def MaskKept (x : Tcb) (l : List Nat) (cleanState : Bool) : Prop :=
  ∃ tr y, x.rtThreadHandleSig cleanState = some (tr, y) ∧
    (∀ c ∈ tr, c.handler ≠ 0 → x.sigMask.getLsbD c.signo = true) ∧
    (∀ k, x.sigPending.getLsbD k = true → x.sigMask.getLsbD k = true →
      tr.countP (fun c => c.signo == k) = 1) ∧
    ∀ k, x.sigPending.getLsbD k = true → x.sigMask.getLsbD k = false →
      y.sigPending.getLsbD k = true ∧
      ∃ q ∈ l, x.si q = y.si q ∧ (x.si q).siSigno = k ∧ ∃ l', Sll.Linked y.next y.siList l' ∧ q ∈ l'

/-- The signals that are handled, counted over the nodes. -/
theorem countP_handled : (l.map x.handled).countP (fun c => c.signo == k) = l.countP (x.isSig k) := by
  rw [List.countP_map]
  rfl

theorem Ran.si_eq (h : x.Ran l₁ l₂ y) : y.si = x.si := by
  rw [h.frame]

/-- A node that is left keeps its bit. -/
theorem Ran.pending (h : x.Ran l₁ l₂ y) (hq : q ∈ l₂) :
    y.sigPending.getLsbD (x.si q).siSigno = true := by
  have hp := h.inv.agree.pending hq
  rwa [h.si_eq] at hp

/-- **A node that is handled loses its bit.** -/
theorem Ran.cleared (hi : x.Inv (l₁ ++ l₂)) (h : x.Ran l₁ l₂ y) (hq : q ∈ l₁) :
    y.sigPending.getLsbD (x.si q).siSigno = false := by
  by_contra hp
  obtain ⟨r, hr, hrq⟩ := h.inv.agree.pending_iff.mp (by simpa using hp)
  rw [h.si_eq] at hrq
  obtain ⟨a, b, rfl⟩ := List.append_of_mem hq
  rw [List.append_assoc, List.cons_append] at hi
  exact hi.agree.signo_ne (by simp [hr]) hrq

/-- When the masked signals are behind, those that are handled are unmasked. -/
theorem Ran.unmasked (h : x.Ran l₁ l₂ y) (hb : x.MaskedBehind (l₁ ++ l₂)) (hq : q ∈ l₁) :
    x.Unmasked q := by
  rcases List.eq_nil_or_concat l₁ with rfl | ⟨l', e, rfl⟩
  · cases hq
  · rw [List.concat_eq_append] at h hb hq
    have he : x.Unmasked e := h.last e (by simp)
    rcases List.mem_append.mp hq with hq | hq
    · have hp : (l' ++ [e]).Pairwise fun a b => x.Unmasked b → x.Unmasked a :=
        (List.pairwise_append.mp hb).1
      exact (List.pairwise_append.mp hp).2.2 q hq e (by simp) he
    · rw [List.mem_singleton.mp hq]
      exact he

/-- The nodes that are handled are all unmasked: this is what the mask asks for. -/
theorem Ran.maskKept_iff (hi : x.Inv (l₁ ++ l₂)) (h : x.Ran l₁ l₂ y) {clean sig : Bool}
    (hrun : x.rtThreadHandleSig clean = some (l₁.map x.handled, { y with signal := sig })) :
    x.MaskKept (l₁ ++ l₂) clean ↔ x.MaskedBehind (l₁ ++ l₂) := by
  constructor
  · rintro ⟨tr, z, hz, -, -, hmasked⟩
    rw [hrun] at hz
    obtain ⟨rfl, rfl⟩ := Prod.mk.inj (Option.some.inj hz)
    have hun : ∀ q ∈ l₁, x.Unmasked q := by
      intro q hq
      by_contra hm
      have hbit := (hmasked _ (hi.agree.pending (List.mem_append_left _ hq)) (Bool.eq_false_of_not_eq_true hm)).1
      have hclear : y.sigPending.getLsbD (x.si q).siSigno = false := h.cleared hi hq
      rw [hclear] at hbit
      cases hbit
    have hleft : ∀ q ∈ l₂, ¬ x.Unmasked q := fun q hq hu => by
      unfold Unmasked at hu
      rw [h.masked q hq] at hu
      cases hu
    refine List.pairwise_append.mpr ⟨?_, ?_, ?_⟩
    · exact List.pairwise_of_forall_mem_list fun a ha b _ _ => hun a ha
    · exact List.pairwise_of_forall_mem_list fun a _ b hb hu => absurd hu (hleft b hb)
    · exact fun a ha b _ _ => hun a ha
  · intro hb
    refine ⟨_, _, hrun, ?_, ?_, ?_⟩
    · intro c hc _
      obtain ⟨q, hq, rfl⟩ := List.mem_map.mp hc
      exact h.unmasked hb hq
    · intro k hp hm
      have hzero : l₂.countP (x.isSig k) = 0 := by
        refine List.countP_eq_zero.mpr fun q hq hk => ?_
        have hmasked := h.masked q hq
        rw [isSig_iff.mp hk, hm] at hmasked
        cases hmasked
      have hc := hi.agree k
      rw [List.countP_append, hzero, hp] at hc
      rw [countP_handled]
      exact hc
    · intro k hp hm
      obtain ⟨q, hq, rfl⟩ := hi.agree.pending_iff.mp hp
      have hq₂ : q ∈ l₂ := by
        rcases List.mem_append.mp hq with hq₁ | hq₂
        · have hu : x.sigMask.getLsbD (x.si q).siSigno = true := h.unmasked hb hq₁
          rw [hm] at hu
          cases hu
        · exact hq₂
      refine ⟨h.pending hq₂, q, hq, ?_, rfl, l₂, h.inv.linked, hq₂⟩
      rw [← h.si_eq]

/-- **When `rt_thread_handle_sig` respects the mask**: the thread is not in `rt_signal_wait` with a
signal to handle, and no masked signal stands in `si_list` in front of an unmasked one. -/
theorem handleSig_maskKept_iff (x : Tcb) (l : List Nat) (h : x.Inv l) (clean : Bool) :
    x.MaskKept l clean ↔ (x.Wanted → x.signalWait = false) ∧ x.MaskedBehind l := by
  by_cases hwait : x.Wanted → x.signalWait = false
  · obtain ⟨l₁, l₂, y, sig, rfl, hrun, ran⟩ := h.rtThreadHandleSig hwait clean
    rw [ran.maskKept_iff h hrun]
    exact (and_iff_right hwait).symm
  · -- nothing is handled although something is wanted
    rw [Classical.not_imp] at hwait
    refine iff_of_false ?_ fun hc => hwait.2 (hc.1 hwait.1)
    rintro ⟨tr, y, hrun, -, honce, -⟩
    rw [rtThreadHandleSig_wait (by simpa using hwait.2) clean] at hrun
    obtain ⟨rfl, rfl⟩ := Prod.mk.inj (Option.some.inj hrun)
    obtain ⟨q, hq, hm⟩ := h.wanted_iff.mp hwait.1
    have hcount := honce _ (h.agree.pending hq) hm
    cases hcount

/-- Signal 3 was sent, and then signal 5. -/
def sentTwo (mask : BitVec 32) : Tcb := ((idle [1, 2] mask).append 3 0 1 [2]).append 5 1 2 []

theorem sentTwo_inv (mask : BitVec 32) : (sentTwo mask).Inv [1, 2] := by
  have h₀ : (idle [1, 2] mask).Inv [] := idle_inv (by decide) (by decide) (by decide) mask
  have h₁ : ((idle [1, 2] mask).append 3 0 1 [2]).Inv [1] := by
    refine h₀.append (by decide) ?_ rfl
    show (0 : BitVec 32).getLsbD 3 = false
    decide
  refine h₁.append (by decide) ?_ rfl
  show (0 ||| sigBit 3).getLsbD 5 = false
  decide

/-- With signal 3 unmasked and signal 5 masked, only signal 3 is handled. -/
theorem sentTwo_maskKept : (sentTwo (sigBit 3)).MaskKept [1, 2] true := by
  refine (handleSig_maskKept_iff (sentTwo (sigBit 3)) [1, 2] (sentTwo_inv _) true).mpr ⟨?_, ?_⟩
  · exact fun _ => rfl
  · refine List.pairwise_pair.mpr fun _ => ?_
    show (sigBit 3).getLsbD 3 = true
    decide

/-- **A masked signal is handled**: signal 3 is masked and signal 5 is not, and both handlers run. -/
theorem sentTwo_masked_handled : (sentTwo (sigBit 5)).Inv [1, 2] ∧
    ((sentTwo (sigBit 5)).rtThreadHandleSig true).map Prod.fst = some [⟨3, 1⟩, ⟨5, 1⟩] ∧
    (sentTwo (sigBit 5)).sigMask.getLsbD 3 = false ∧
    ¬ (sentTwo (sigBit 5)).MaskKept [1, 2] true := by
  have hrun : ((sentTwo (sigBit 5)).rtThreadHandleSig true).map Prod.fst =
      some [⟨3, 1⟩, ⟨5, 1⟩] := by decide
  refine ⟨sentTwo_inv _, hrun, by decide, ?_⟩
  rintro ⟨tr, y, hy, hcall, -⟩
  rw [hy, Option.map_some] at hrun
  obtain rfl : tr = [⟨3, 1⟩, ⟨5, 1⟩] := Option.some.inj hrun
  have hmask : (sigBit 5).getLsbD 3 = true := hcall ⟨3, 1⟩ (by simp) (by decide)
  exact absurd hmask (by decide)

end RTThread.Siginfo.Tcb
