import RTThread.Mempool.Conservation

set_option autoImplicit false

/-! # What a step of a pool leaves as it is

For a component whose items are blocks of a pool: a step changes no word inside a block, the place of no other
thread and, of the blocks that are handed out, one at most.
-/

namespace RTThread.Mp

/-- The bytes of two blocks are at different addresses. -/
theorem Laid.payload_disjoint {mp : Mempool} (h : Laid mp) {p q i j : Nat} (hp : p ∈ mp.blocks)
    (hq : q ∈ mp.blocks) (hpq : p ≠ q) (hi : i < mp.blockSize) (hj : j < mp.blockSize) :
    p + 4 + i ≠ q + 4 + j := by
  obtain ⟨k, -, rfl⟩ := List.mem_map.mp hp
  obtain ⟨l, -, rfl⟩ := List.mem_map.mp hq
  have h₁ := h.stride_eq
  rcases Nat.lt_trichotomy k l with hkl | rfl | hkl
  · have h₂ : (k + 1) * stride mp.blockSize ≤ l * stride mp.blockSize := Nat.mul_le_mul_right _ hkl
    rw [Nat.add_mul, Nat.one_mul] at h₂
    omega
  · exact absurd rfl hpq
  · have h₂ : (l + 1) * stride mp.blockSize ≤ k * stride mp.blockSize := Nat.mul_le_mul_right _ hkl
    rw [Nat.add_mul, Nat.one_mul] at h₂
    omega

namespace MpSys

variable {s s' : MpSys} {t u : ThreadId} {time : Int} {delta block a : Nat}

/-- The blocks stay where they are, and what is in them. -/
structure Frame (s s' : MpSys) : Prop where
  blocks : s'.mp.blocks = s.mp.blocks
  blockSize : s'.mp.blockSize = s.mp.blockSize
  mem : ∀ a, a ∉ s.mp.blocks → s'.mem a = s.mem a

/-- The invariant is about the words in front of the blocks. -/
theorem Inv.of_mem (h : s.Inv) {mem : Mem} (hmem : ∀ p ∈ s.mp.blocks, mem p = s.mem p) :
    Inv { s with mem := mem } := by
  obtain ⟨l, hl, hcount, hperm⟩ := h.blocks
  refine ⟨h.laid, ⟨l, hl.congr fun p hp => ?_, hcount, hperm⟩, fun b hb => ?_, h.suspended, h.resumed,
    h.wakes⟩
  · obtain ⟨q, hq, he⟩ := List.mem_map.mp
      (hperm.subset (List.mem_append_left _ (List.mem_map_of_mem (f := (· + 4)) hp)))
    rw [← Nat.add_right_cancel he]
    exact hmem q hq
  · obtain ⟨q, hq, rfl⟩ := h.exists_block hb
    have h₁ := h.owner _ hb
    rw [Nat.add_sub_cancel] at h₁ ⊢
    exact (hmem q hq).trans h₁

/-- The error code of a thread that does not wait for the pool. -/
theorem Inv.of_error (h : s.Inv) (ht : ∀ time, s.pc t ≠ .wait time) (e : Err) :
    Inv { s with error := Function.update s.error t e } := by
  refine ⟨h.laid, h.blocks, h.owner, h.suspended, ⟨h.resumed.1, fun u hu => ?_⟩, h.wakes⟩
  obtain ⟨hpc, hsusp, herr⟩ := h.resumed.2 u hu
  refine ⟨hpc, hsusp, ?_⟩
  have hut : u ≠ t := by
    rintro rfl
    exact h.not_resumed ht hu
  exact (Function.update_of_ne hut _ _).trans herr

/-- A thread has gone on in `rt_mp_alloc`: it waits, has got no block, or has got a block. -/
structure Went (s : MpSys) (t : ThreadId) (s' : MpSys) : Prop where
  frame : Frame s s'
  pc : ∃ p, p ≠ .idle ∧ s'.pc = Function.update s.pc t p
  error : ∀ u, u ≠ t → s'.error u = s.error u
  handed : (∀ b, s'.pc t = .ret b → b = 0) ∧ s'.handed = s.handed ∨
    ∃ b, s'.pc t = .ret b ∧ b ≠ 0 ∧ b ∉ s.handed.map Prod.fst ∧ s'.handed = (b, t) :: s.handed

theorem after_pc (s : MpSys) (t : ThreadId) (x : MpSection) : (s.after t x).pc t = x.pc :=
  Function.update_self _ _ _

/-- The section of `rt_mp_alloc`. -/
theorem Inv.went (h : s.Inv) {x : MpSection} (hx : rtMpAlloc s.addr s.mem s.mp t time = some x) :
    Went s t (s.after t x) := by
  have herror : ∀ u, u ≠ t → (s.after t x).error u = s.error u := by
    intro u hu
    unfold after
    dsimp only
    split_ifs
    · exact Function.update_of_ne hu _ _
    · rfl
  unfold rtMpAlloc at hx
  split_ifs at hx with hfree h0
  · obtain rfl := Option.some.inj hx
    refine ⟨⟨rfl, rfl, fun _ _ => rfl⟩, ⟨.ret 0, by simp, rfl⟩, herror, .inl ⟨fun b hb => ?_, rfl⟩⟩
    exact (MpPc.ret.inj ((after_pc _ _ _).symm.trans hb)).symm
  · obtain rfl := Option.some.inj hx
    refine ⟨⟨rfl, rfl, fun _ _ => rfl⟩, ⟨.wait time, by simp, rfl⟩, herror, .inl ⟨fun b hb => ?_, rfl⟩⟩
    cases (after_pc _ _ _).symm.trans hb
  · obtain ⟨h0', l, -, -, -, hmem, hnot, -⟩ := h.take hfree
    dsimp only at hx
    rw [if_neg h0'] at hx
    obtain rfl := Option.some.inj hx
    refine ⟨⟨rfl, rfl, fun a ha => ?_⟩, ⟨.ret (s.mp.blockList + 4), by simp, rfl⟩, herror, .inr ?_⟩
    · exact Function.update_of_ne (fun he : a = s.mp.blockList => ha (he ▸ hmem)) _ _
    · exact ⟨s.mp.blockList + 4, Function.update_self _ _ _, by omega, hnot, rfl⟩

theorem Inv.exec_alloc (h : s.Inv) (he : s.exec (.alloc t time) = some s') : s.pc t = .idle ∧ Went s t s' := by
  simp only [exec] at he
  split at he
  · obtain ⟨x, hx, rfl⟩ := Option.map_eq_some_iff.mp he
    exact ⟨‹_›, h.went hx⟩
  · cases he

theorem Inv.exec_again (h : s.Inv) (he : s.exec (.again t delta) = some s') :
    (∃ time, s.pc t = .wait time) ∧ Went s t s' := by
  simp only [exec] at he
  split at he
  · rename_i time hpc
    split_ifs at he with hs herr
    · obtain rfl := Option.some.inj he
      refine ⟨⟨time, hpc⟩, ⟨rfl, rfl, fun _ _ => rfl⟩, ⟨.ret 0, by simp, rfl⟩, fun _ _ => rfl, .inl ⟨fun b hb => ?_, rfl⟩⟩
      have hret : MpPc.ret 0 = .ret b := (Function.update_self t (.ret 0) s.pc).symm.trans hb
      exact (MpPc.ret.inj hret).symm
    · obtain ⟨x, hx, rfl⟩ := Option.map_eq_some_iff.mp he
      exact ⟨⟨time, hpc⟩, h.went hx⟩
  · cases he

theorem exec_ret (he : s.exec (.ret t) = some s') :
    (∃ b, s.pc t = .ret b) ∧ s' = { s with pc := Function.update s.pc t .idle } := by
  simp only [exec] at he
  split at he
  · exact ⟨⟨_, ‹_›⟩, (Option.some.inj he).symm⟩
  · cases he

theorem Inv.exec_free (h : s.Inv) (hb : block ∈ s.handed.map Prod.fst)
    (he : s.exec (.free t block) = some s') :
    Frame s s' ∧ s'.pc = s.pc ∧ s'.handed.map Prod.fst = (s.handed.map Prod.fst).erase block ∧
      ∀ u, (∀ time, s.pc u ≠ .wait time) → s'.error u = s.error u := by
  obtain ⟨p, hp, rfl⟩ := h.exists_block hb
  simp only [exec] at he
  split at he
  · rw [if_pos (.inr hb)] at he
    obtain ⟨r, hr, rfl⟩ := Option.map_eq_some_iff.mp he
    unfold rtMpFree at hr
    rw [if_neg (by omega), Nat.add_sub_cancel] at hr
    dsimp only at hr
    split_ifs at hr with howner
    obtain rfl := Option.some.inj hr
    refine ⟨⟨rfl, rfl, fun a ha => ?_⟩, rfl, Inv.map_fst_giveBack _ _, fun u hu => ?_⟩
    · exact Function.update_of_ne (fun he : a = p => ha (he ▸ hp)) _ _
    · unfold afterFree
      dsimp only
      cases hs : s.mp.suspendThread with
      | nil => rfl
      | cons v l =>
          have hne : u ≠ v := by
            rintro rfl
            obtain ⟨time, hpc⟩ := h.suspended.2 u (by rw [hs]; exact List.mem_cons_self)
            exact hu time hpc
          exact Function.update_of_ne hne _ _
  · cases he

theorem Inv.exec_wake (h : s.Inv) {e : Err} (he : s.exec (.wake t e) = some s') :
    Frame s s' ∧ s'.pc = s.pc ∧ s'.handed = s.handed ∧ (∃ time, s.pc t = .wait time) ∧
      ∀ u, u ≠ t → s'.error u = s.error u := by
  simp only [exec] at he
  split_ifs at he with ht
  obtain rfl := Option.some.inj he
  exact ⟨⟨rfl, rfl, fun _ _ => rfl⟩, rfl, rfl, h.suspended.2 t ht,
    fun u hu => Function.update_of_ne hu _ _⟩

end MpSys

end RTThread.Mp
