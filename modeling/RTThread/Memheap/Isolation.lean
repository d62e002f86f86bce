import RTThread.Memheap.Calls

set_option autoImplicit false

/-! # Allocations do not interfere

A run starts with the initialisation of the heaps and goes on with calls of `rt_malloc`,
`rt_calloc`, `rt_realloc` and `rt_free` on live pointers and stores into live payloads, in any
order. In every state of a run the payloads of the live pointers are apart, and a call changes no
byte of another pointer's payload.
-/

namespace RTThread.Memheap

open Handles (Held replaced)

/-! ## The initial state -/

/-- `rt_memheap_init`, on the memory and the heap objects. -/
def InitArgs.install (A : InitArgs) (s : State) : State :=
  ⟨(A.pool s.mem).mem, Function.update s.heap A.heap (A.pool s.mem).heap⟩

/-- The heaps are initialised one after the other. -/
def bootHeaps (s : State) : List InitArgs → State
  | [] => s
  | A :: l => bootHeaps (A.install s) l

theorem bootHeaps_mem {l : List InitArgs} {a : Nat} (h : ∀ A ∈ l, Outside A.layout a) (s : State) :
    (bootHeaps s l).mem a = s.mem a := by
  induction l generalizing s with
  | nil => rfl
  | cons A l ih =>
      calc (bootHeaps (A.install s) l).mem a = (A.install s).mem a :=
            ih (fun B hB => h B (List.mem_cons_of_mem _ hB)) _
        _ = s.mem a := A.pool_frame s.mem (h A List.mem_cons_self)

theorem bootHeaps_heap {l : List InitArgs} {g : Nat} (h : ∀ A ∈ l, A.heap ≠ g) (s : State) :
    (bootHeaps s l).heap g = s.heap g := by
  induction l generalizing s with
  | nil => rfl
  | cons A l ih =>
      calc (bootHeaps (A.install s) l).heap g = (A.install s).heap g :=
            ih (fun B hB => h B (List.mem_cons_of_mem _ hB)) _
        _ = s.heap g := Function.update_of_ne (h A List.mem_cons_self).symm ..

/-- Every heap is one free block; no block is in use. -/
theorem bootHeaps_spec {l : List InitArgs}
    (hl : l.Pairwise fun A B => A.heap ≠ B.heap ∧ A.Disjoint B) (s : State) {A : InitArgs}
    (hA : A ∈ l) : Inv A.layout ((bootHeaps s l).pool A.heap) [A.tail] [A.startAddr] ∧
      ((bootHeaps s l).heap A.heap).lock = 1 ∧ ∀ p, ¬ A.LiveIn (bootHeaps s l).mem [A.tail] p := by
  induction l generalizing s with
  | nil => exact absurd hA (by simp)
  | cons B l ih =>
      obtain ⟨hB, hl'⟩ := List.pairwise_cons.mp hl
      rcases List.mem_cons.mp hA with rfl | hA
      · -- the heaps initialised later leave this one alone
        obtain ⟨hi, hlock⟩ := A.inv s.mem
        have hheap : (bootHeaps (A.install s) l).heap A.heap = (A.pool s.mem).heap := by
          rw [bootHeaps_heap (fun C hC => (hB C hC).1.symm)]
          exact Function.update_self ..
        have hmem : ∀ a, ¬ Outside A.layout a →
            (bootHeaps (A.install s) l).mem a = (A.pool s.mem).mem a := fun a ha =>
          bootHeaps_mem (fun C hC => ((hB C hC).2 a).resolve_left ha) _
        have hh : SameHeaders A.layout [A.tail] [A.startAddr] (A.pool s.mem).mem
            (bootHeaps (A.install s) l).mem := fun f b hb =>
          hmem _ (hi.toTiled.header_notOutside hb f)
        have hi' := hi.congr hh
        refine ⟨?_, ?_, ?_⟩
        · unfold State.pool
          simp only [bootHeaps, hheap]
          exact hi'
        · simp only [bootHeaps, hheap]
          exact hlock
        · rintro p ⟨b, -, hu, hbt⟩
          obtain ⟨hb, hu⟩ := ((hh.sameBlocks.sameUsed b).1).mp hu
          rcases List.mem_cons.mp hb with rfl | hb
          · exact (A.isUsed_iff s.mem).1 hu
          · exact hbt (List.mem_singleton.mp hb)
      · exact ih hl' _ hA

/-! ## Runs -/

/-- The memory and the heap objects, and the pointers the callers hold with the sizes they asked
for. -/
structure HeapSys where
  state : State
  live : Nat → Option Nat

/-- A call of the interface, or a store of the byte `v` at offset `i` of a payload. -/
inductive Call
  | malloc (size : Nat)
  | calloc (count size : Nat)
  | realloc (rmem newsize : Nat)
  | free (rmem : Nat)
  | store (rmem i v : Nat)

/-- The pointer a call is given. -/
def Call.rmem : Call → Nat
  | .malloc _ => 0
  | .calloc _ _ => 0
  | .realloc rmem _ => rmem
  | .free rmem => rmem
  | .store rmem _ _ => rmem

/-- The number of bytes a call asks for. -/
def Call.request : Call → Nat
  | .malloc size => size
  | .calloc count size => count * size
  | .realloc _ newsize => newsize
  | .free _ => 0
  | .store _ _ _ => 0

/-- A caller passes live pointers or `NULL` and sizes that do not wrap, and stores only into the
bytes it asked for. -/
def Call.Allowed (s : HeapSys) : Call → Prop
  | .malloc size => NoWrap size
  | .calloc count size => count * size < 4294967296 ∧ NoWrap (count * size)
  | .realloc rmem newsize => (rmem = 0 ∨ (s.live rmem).isSome) ∧ NoWrap newsize
  | .free rmem => rmem = 0 ∨ (s.live rmem).isSome
  | .store rmem i _ => ∃ n ∈ s.live rmem, i < n

instance (s : HeapSys) (c : Call) : Decidable (c.Allowed s) := by
  cases c <;> unfold Call.Allowed <;> infer_instance

/-- What a call returns and the state after it. -/
def Call.exec (H : HeapSet) (s : HeapSys) : Call → Option (Nat × HeapSys)
  | .malloc size => (rtMalloc H.sys.heap H.objectList size s.state).map fun r =>
      (r.1, ⟨r.2, replaced s.live 0 r.1 size⟩)
  | .calloc count size => (rtCalloc H.sys.heap H.objectList count size s.state).map fun r =>
      (r.1, ⟨r.2, replaced s.live 0 r.1 (count * size)⟩)
  | .realloc rmem newsize =>
      (rtRealloc H.sys.heap H.objectList rmem newsize s.state).map fun r =>
        (r.1, ⟨r.2, if r.1 = 0 ∧ newsize ≠ 0 then s.live else replaced s.live rmem r.1 newsize⟩)
  | .free rmem => (rtFree rmem s.state).map fun state => (0, ⟨state, replaced s.live rmem 0 0⟩)
  | .store rmem i v =>
      some (0, ⟨{ s.state with mem := s.state.mem.storeBytes (rmem + i) 1 fun _ => v }, s.live⟩)

/-- The heaps are initialised, over any memory, and no pointer is held. -/
def HeapSet.Init (H : HeapSet) (s : HeapSys) : Prop :=
  (∃ state, s.state = bootHeaps state H.all) ∧ ∀ p, s.live p = none

def HeapSet.Step (H : HeapSet) (s : HeapSys) (c : Call) (s' : HeapSys) : Prop :=
  c.Allowed s ∧ ∃ r, c.exec H s = some (r, s')

/-- The invariant of a run: the pointers the callers hold are the payloads in use. -/
structure HeapSysInv (H : HeapSet) (s : HeapSys) (R F : Nat → List Nat) : Prop where
  set : SetInv H s.state R F
  held : Held H.view (s.state, R) s.live

theorem HeapSysInv.live {H : HeapSet} {s : HeapSys} {R F : Nat → List Nat}
    (hs : HeapSysInv H s R F) (p : Nat) : H.Live s.state R p ↔ (s.live p).isSome := hs.held.live p

/-- Data of the heaps, found by the address of the heap object. -/
theorem HeapSet.exists_family (H : HeapSet) (f : InitArgs → List Nat) :
    ∃ R : Nat → List Nat, ∀ A ∈ H.all, R A.heap = f A := by
  refine ⟨fun g => ((H.all.find? fun A => A.heap = g).map f).getD [], fun A hA => ?_⟩
  obtain ⟨B, hB⟩ : ∃ B, (H.all.find? fun B => B.heap = A.heap) = some B :=
    Option.isSome_iff_exists.mp (List.find?_isSome.mpr ⟨A, hA, by simp⟩)
  have hBA : B = A := H.eq_of_heap (List.mem_of_find?_eq_some hB) hA
    (by simpa using List.find?_some hB)
  simp [hB, hBA]

theorem HeapSet.sysInv (H : HeapSet) {s : HeapSys} (h : H.Init s) :
    ∃ R F, HeapSysInv H s R F := by
  obtain ⟨⟨state, hs⟩, hlive⟩ := h
  have hspec := fun (A : InitArgs) (hA : A ∈ H.all) => bootHeaps_spec H.apart state hA
  obtain ⟨R, hR⟩ := H.exists_family fun A => [A.tail]
  obtain ⟨F, hF⟩ := H.exists_family fun A => [A.startAddr]
  refine ⟨R, F, ⟨⟨fun A hA => ?_, fun A hA => ?_⟩, ⟨fun p => ?_, fun p n hn => ?_⟩⟩⟩
  · rw [hs, hR A hA, hF A hA]
    exact (hspec A hA).1
  · rw [hs]
    exact (hspec A hA).2.1
  · rw [hlive]
    refine iff_of_false ?_ (by simp)
    rintro ⟨A, hA, h⟩
    simp only [hs, hR A hA] at h
    exact (hspec A hA).2.2 p h
  · rw [hlive] at hn
    exact absurd hn (by simp)

/-! ## What a call leaves alone -/

/-- The pointer is held as before, and no byte of its payload changed. -/
structure Unchanged (s s' : HeapSys) (p : Nat) : Prop where
  live : s'.live p = s.live p
  size : payload s'.state.mem p = payload s.state.mem p
  bytes : ∀ i, i < payload s.state.mem p → byte s'.state.mem (p + i) = byte s.state.mem (p + i)

/-- The call `c`, which returned `r`, does not interfere with the pointers it is not given. -/
structure Isolated (s : HeapSys) (c : Call) (r : Nat) (s' : HeapSys) : Prop where
  others : ∀ p, (s.live p).isSome → p ≠ c.rmem → Unchanged s s' p
  /-- A payload that is returned was held by nobody else. -/
  fresh : r ≠ 0 → r ≠ c.rmem → s.live r = none
  result : r ≠ 0 → s'.live r = some c.request
  /-- A reallocation keeps the bytes that fit. -/
  copied : ∀ rmem newsize, c = .realloc rmem newsize → rmem ≠ 0 → r ≠ 0 →
    ∀ i, i < min (payload s.state.mem rmem) newsize →
      byte s'.state.mem (r + i) = byte s.state.mem (rmem + i)
  /-- A reallocation that fails changes nothing. -/
  failed : ∀ rmem newsize, c = .realloc rmem newsize → newsize ≠ 0 → rmem ≠ 0 → r = 0 →
    Unchanged s s' rmem
  cleared : ∀ count size, c = .calloc count size → r ≠ 0 →
    ∀ i, i < count * size → byte s'.state.mem (r + i) = 0

/-- Live payloads are aligned, as large as requested, and apart. -/
structure Separated (s : HeapSys) : Prop where
  aligned : ∀ p, (s.live p).isSome → p % RT_ALIGN_SIZE = 0
  room : ∀ p, ∀ n ∈ s.live p, n ≤ payload s.state.mem p
  apart : ∀ p q, (s.live p).isSome → (s.live q).isSome → p ≠ q →
    p + payload s.state.mem p ≤ q ∨ q + payload s.state.mem q ≤ p

namespace HeapSysInv

variable {H : HeapSet} {s : HeapSys} {R F R' F' : Nat → List Nat} {state : State} {x r n : Nat}

/-- Payloads of different heaps are in different pools, payloads of one heap in different
blocks. -/
theorem separated (hs : HeapSysInv H s R F) : Separated s := by
  refine ⟨fun p hp => hs.set.aligned ((hs.live p).mpr hp), hs.held.room, fun p q hp hq hpq => ?_⟩
  obtain ⟨A, hA, b, rfl, hb, hbt⟩ := (hs.live p).mpr hp
  obtain ⟨B, hB, c, rfl, hc, hct⟩ := (hs.live q).mpr hq
  have hwA := hs.set.wf hA
  have hwB := hs.set.wf hB
  have h₁ := hwA.add_payload hb.1 hbt
  have h₂ := hwB.add_payload hc.1 hct
  rw [h₁, h₂]
  by_cases hAB : A = B
  · subst hAB
    have hbc : b ≠ c := fun e => hpq (e ▸ rfl)
    rcases Nat.lt_or_gt_of_ne hbc with h | h
    · have h₃ := hwA.order b hb.1 c hc.1 h
      omega
    · have h₃ := hwA.order c hc.1 b hb.1 h
      omega
  · -- the two pools do not overlap
    have hd := (H.apart_of_ne hA hB hAB).2
    by_contra hover
    have hgA := hwA.gap b hb.1 hbt
    have hgB := hwB.gap c hc.1 hct
    rcases Nat.le_total b c with h | h
    · rcases hd c with ho | ho
      · refine ho.1.elim (fun h₃ => ?_) fun h₃ => ?_
        · have h₄ := (hwA.range b hb.1).1
          omega
        · have h₄ := hwA.next_le_tail hb.1
          omega
      · exact hwB.block_notOutside hc.1 (Nat.le_refl _)
          (Nat.lt_add_of_pos_right (by decide)) ho
    · rcases hd b with ho | ho
      · exact hwA.block_notOutside hb.1 (Nat.le_refl _)
          (Nat.lt_add_of_pos_right (by decide)) ho
      · refine ho.1.elim (fun h₃ => ?_) fun h₃ => ?_
        · have h₄ := (hwB.range c hc.1).1
          omega
        · have h₄ := hwB.next_le_tail hc.1
          omega

/-- The run after a call whose effect is known. -/
theorem of_effect (hs : HeapSysInv H s R F) (hset : SetInv H state R' F')
    (he : Effect H s.state R state R' x r n) :
    HeapSysInv H ⟨state, replaced s.live x r n⟩ R' F' ∧
      (∀ p, (s.live p).isSome → p ≠ x → Unchanged s ⟨state, replaced s.live x r n⟩ p) ∧
      (r ≠ 0 → r ≠ x → s.live r = none) ∧ (r ≠ 0 → replaced s.live x r n r = some n) := by
  refine ⟨⟨hset, hs.held.of_effect he⟩, fun p hp hpx => ?_, hs.held.fresh he,
    Handles.replaced_self⟩
  have hlive := (hs.live p).mpr hp
  have hk : SameBlock s.state.mem state.mem p := he.keep p hlive hpx
  exact ⟨hs.held.replaced_eq he hp hpx, hk.1, fun i hi => hk.byte_eq (hs.set.aligned hlive) hi⟩

/-- **The step lemma**: an allowed call returns, keeps the invariant and does not interfere. -/
theorem exec (hs : HeapSysInv H s R F) {c : Call} (hc : c.Allowed s) :
    ∃ r s' R' F', c.exec H s = some (r, s') ∧ HeapSysInv H s' R' F' ∧ Isolated s c r s' := by
  have hheld : ∀ {p}, (s.live p).isSome → p ≠ 0 := hs.held.ne_zero
  have hzero : ∀ n, replaced s.live 0 0 n = s.live := fun _ => Handles.replaced_zero hs.held.zero
  have hmalloc : ∀ {size}, NoWrap size → ∃ r state R' F',
      rtMalloc H.sys.heap H.objectList size s.state = some (r, state) ∧
        HeapSysInv H ⟨state, replaced s.live 0 r size⟩ R' F' ∧
        (∀ p, (s.live p).isSome → Unchanged s ⟨state, replaced s.live 0 r size⟩ p) ∧
        (r ≠ 0 → s.live r = none) ∧ (r ≠ 0 → replaced s.live 0 r size r = some size) := by
    intro size hsize
    obtain ⟨r, state, R', F', h, hset, he⟩ := hs.set.rtMalloc hsize.rounds
    obtain ⟨hinv, hothers, hfresh, hself⟩ := hs.of_effect hset he
    exact ⟨r, state, R', F', h, hinv, fun p hp => hothers p hp (hheld hp),
      fun hr => hfresh hr hr, hself⟩
  have hfree : ∀ {p}, (s.live p).isSome → ∃ state R' F', rtFree p s.state = some state ∧
      HeapSysInv H ⟨state, replaced s.live p 0 0⟩ R' F' ∧
        ∀ q, (s.live q).isSome → q ≠ p → Unchanged s ⟨state, replaced s.live p 0 0⟩ q := by
    intro p hp
    obtain ⟨state, R', F', h, hset, he⟩ := hs.set.rtFree ((hs.live p).mpr hp)
    obtain ⟨hinv, hothers, -, -⟩ := hs.of_effect hset he
    exact ⟨state, R', F', h, hinv, hothers⟩
  cases c with
  | malloc size =>
      obtain ⟨r, state, R', F', h, hinv, hothers, hfresh, hself⟩ := hmalloc hc
      refine ⟨r, _, R', F', by rw [Call.exec, h, Option.map_some], hinv,
        fun p hp _ => hothers p hp, fun hr _ => hfresh hr, hself, ?_, ?_, ?_⟩ <;>
          exact fun _ _ h => Call.noConfusion h
  | calloc count size =>
      obtain ⟨hmul, hsize⟩ := hc
      obtain ⟨r, state, R', F', h, hset, he, hclear⟩ := hs.set.rtCalloc hmul hsize.rounds
      obtain ⟨hinv, hothers, hfresh, hself⟩ := hs.of_effect hset he
      refine ⟨r, _, R', F', by rw [Call.exec, h, Option.map_some], hinv, hothers, hfresh, hself,
        fun _ _ h => Call.noConfusion h, fun _ _ h => Call.noConfusion h, ?_⟩
      rintro _ _ ⟨⟩ hr i hi
      exact hclear hr i hi
  | free p =>
      rcases hc with rfl | hp
      · refine ⟨0, s, R, F, ?_, hs, fun _ _ _ => ⟨rfl, rfl, fun _ _ => rfl⟩,
          fun h => absurd rfl h, fun h => absurd rfl h, fun _ _ h => Call.noConfusion h, fun _ _ h => Call.noConfusion h,
          fun _ _ h => Call.noConfusion h⟩
        simp only [Call.exec, rtFree, rtMemheapFree, if_true, Option.map_some, hzero]
      · obtain ⟨state, R', F', h, hinv, hothers⟩ := hfree hp
        exact ⟨0, _, R', F', by rw [Call.exec, h, Option.map_some], hinv, hothers,
          fun h => absurd rfl h, fun h => absurd rfl h, fun _ _ h => Call.noConfusion h, fun _ _ h => Call.noConfusion h,
          fun _ _ h => Call.noConfusion h⟩
  | store p i v =>
      obtain ⟨n, hn, hi⟩ := hc
      have hp : (s.live p).isSome := Option.isSome_iff_exists.mpr ⟨n, hn⟩
      have hroom : n ≤ payload s.state.mem p := hs.held.room p n hn
      obtain ⟨state, hst, hset, he, -⟩ := hs.set.fill (f := fun _ => v) (n := 1) (i := i)
        (l := n) ((hs.live p).mpr hp) (by omega) hroom
      obtain ⟨hinv, hothers, -, -⟩ := hs.of_effect hset he
      rw [Handles.replaced_same (hheld hp) hn] at hinv hothers
      refine ⟨0, _, R, F, by rw [Call.exec, ← hst], hinv, hothers, fun h => absurd rfl h,
        fun h => absurd rfl h, fun _ _ h => Call.noConfusion h, fun _ _ h => Call.noConfusion h,
          fun _ _ h => Call.noConfusion h⟩
  | realloc p size =>
      obtain ⟨hp, hsize⟩ := hc
      rcases hp with rfl | hp
      · -- `NULL` is reallocated by an allocation
        obtain ⟨r, state, R', F', h, hinv, hothers, hfresh, hself⟩ := hmalloc hsize
        refine ⟨r, _, R', F', ?_, hinv, fun p hp _ => hothers p hp, fun hr _ => hfresh hr, hself,
          fun _ _ h₁ h₂ => ?_, fun _ _ h₁ _ h₂ => ?_, fun _ _ h => Call.noConfusion h⟩
        · rw [Call.exec, rtRealloc, if_pos rfl, h, Option.map_some]
          dsimp only
          split_ifs with hr
          · rw [hr.1, hzero]
          · rfl
        · cases h₁
          exact absurd rfl h₂
        · cases h₁
          exact absurd rfl h₂
      by_cases hz : size = 0
      · subst hz
        obtain ⟨state, R', F', h, hinv, hothers⟩ := hfree hp
        refine ⟨0, _, R', F', ?_, hinv, hothers, fun h => absurd rfl h, fun h => absurd rfl h,
          fun _ _ _ _ h => absurd rfl h, fun _ _ h₁ h₂ => ?_, fun _ _ h => Call.noConfusion h⟩
        · simp [Call.exec, rtRealloc, hheld hp, h]
        · cases h₁
          exact absurd rfl h₂
      · obtain ⟨r, state, R', F', h, hset, hor⟩ :=
          hs.set.rtRealloc ((hs.live p).mpr hp) hsize.rounds (hsize.regrows _ _) hz
        rcases hor with ⟨rfl, he⟩ | ⟨hr, he, hcopied⟩
        · obtain ⟨hinv, hothers, -, -⟩ := hs.of_effect hset he
          rw [hzero] at hinv hothers
          refine ⟨0, _, R', F', by simp [Call.exec, h, hz], hinv,
            fun q hq _ => hothers q hq (hheld hq), fun h => absurd rfl h, fun h => absurd rfl h,
            fun _ _ _ _ h => absurd rfl h, fun _ _ h₁ _ _ _ => ?_, fun _ _ h => Call.noConfusion h⟩
          cases h₁
          exact hothers p hp (hheld hp)
        · obtain ⟨hinv, hothers, hfresh, hself⟩ := hs.of_effect hset he
          refine ⟨r, _, R', F', by simp [Call.exec, h, hr], hinv, hothers, hfresh, hself,
            fun _ _ h₁ _ _ i hi => ?_, fun _ _ _ _ _ h₂ => absurd h₂ hr, fun _ _ h => Call.noConfusion h⟩
          cases h₁
          exact hcopied i (lt_min_iff.mp hi).1 (lt_min_iff.mp hi).2

end HeapSysInv

/-- The invariant holds in every state of a run. -/
theorem HeapSet.reachable_inv (H : HeapSet) {s : HeapSys}
    (h : Trans.Reachable H.Init H.Step s) : ∃ R F, HeapSysInv H s R F := by
  refine h.invariant (I := fun s => ∃ R F, HeapSysInv H s R F) (fun s hs => H.sysInv hs) ?_
  rintro s c s' - ⟨R, F, hs⟩ ⟨hc, r, hexec⟩
  obtain ⟨r', s'', R', F', he, hs', -⟩ := hs.exec hc
  rw [hexec] at he
  cases he
  exact ⟨R', F', hs'⟩

/-- **Allocations do not interfere.** In every state of every run over the heaps the live payloads
are aligned, large enough and apart; every allowed call returns, changes no byte of a payload it
is not given, and a reallocation keeps the bytes that fit, or fails and changes nothing. -/
theorem allocations_isolated (H : HeapSet) {s : HeapSys}
    (h : Trans.Reachable H.Init H.Step s) :
    Separated s ∧ ∀ c : Call, c.Allowed s → (∃ r s', c.exec H s = some (r, s')) ∧
      ∀ r s', c.exec H s = some (r, s') → Isolated s c r s' := by
  obtain ⟨R, F, hs⟩ := H.reachable_inv h
  refine ⟨hs.separated, fun c hc => ?_⟩
  obtain ⟨r, s', -, -, he, -, hi⟩ := hs.exec hc
  refine ⟨⟨r, s', he⟩, fun r' s'' he' => ?_⟩
  rw [he] at he'
  cases he'
  exact hi

theorem kilobyte_room : 2 * RT_MEMHEAP_SIZE + RT_MEMHEAP_MINIALLOC ≤ rtAlignDown 1024 := by decide

theorem kilobyte_lt : 1024 < 4294967296 := by decide

/-- A second pool of one kilobyte. -/
def otherPool : InitArgs where
  heap := 5120
  freeHeader := 5152
  startAddr := 16384
  size := 1024
  heap_ne := by decide
  aligned := by decide
  room := kilobyte_room
  size_lt := kilobyte_lt
  end_le := by decide
  apart := by decide

theorem smallPool_disjoint : smallPool.Disjoint otherPool := by
  intro a
  have h₁ : smallPool.layout.start = 8192 ∧ smallPool.layout.tail = 9192 ∧
      smallPool.layout.freeHeader = 4128 := by decide
  have h₂ : otherPool.layout.start = 16384 ∧ otherPool.layout.tail = 17384 ∧
      otherPool.layout.freeHeader = 5152 := by decide
  unfold Outside
  rw [h₁.1, h₁.2.1, h₁.2.2, h₂.1, h₂.2.1, h₂.2.2]
  unfold RT_MEMHEAP_SIZE
  omega

/-- The first pool is the system heap. -/
def twoPools : HeapSet where
  all := [smallPool, otherPool]
  sys := smallPool
  sys_mem := by simp
  apart := List.pairwise_pair.mpr ⟨by decide, smallPool_disjoint⟩

def twoPoolsInit : HeapSys :=
  ⟨bootHeaps ⟨fun _ => 0, fun _ => (smallPool.pool fun _ => 0).heap⟩ twoPools.all, fun _ => none⟩

/-- A block is written, the system heap is filled, and the block is moved to the other heap. -/
theorem allocations_isolated_moved : ∃ s s' : HeapSys, s.live 8216 = some 100 ∧ Separated s ∧
    Isolated s (.realloc 8216 400) 16408 s' ∧ byte s'.state.mem 16411 = 7 := by
  have hrun : ((Trans.runList (Trans.stepIf (fun s (c : Call) => (c.exec twoPools s).map (·.2))
      fun s c => c.Allowed s) twoPoolsInit [.malloc 100, .store 8216 3 7, .malloc 700]).bind
        fun s => ((Call.realloc 8216 400).exec twoPools s).map fun r => decide
          (s.live 8216 = some 100 ∧ (Call.realloc 8216 400).Allowed s ∧ r.1 = 16408 ∧
            byte r.2.state.mem 16411 = 7)) = some true := by
    decide +kernel
  obtain ⟨s, hs, hs'⟩ := Option.bind_eq_some_iff.mp hrun
  obtain ⟨⟨r, s'⟩, hexec, hall⟩ := Option.map_eq_some_iff.mp hs'
  obtain ⟨hlive, hallowed, rfl, hbyte⟩ := of_decide_eq_true hall
  have hinit : twoPools.Init twoPoolsInit := ⟨⟨_, rfl⟩, fun _ => rfl⟩
  have hreach : Trans.Reachable twoPools.Init twoPools.Step s := by
    refine (Trans.reachable_of_runList_stepIf hinit hs).mono fun s c s' h => ⟨h.2, ?_⟩
    obtain ⟨⟨r, t⟩, ht, rfl⟩ := Option.map_eq_some_iff.mp h.1
    exact ⟨r, ht⟩
  obtain ⟨hsep, hcall⟩ := allocations_isolated twoPools hreach
  exact ⟨s, s', hlive, hsep, (hcall _ hallowed).2 _ _ hexec, hbyte⟩

end RTThread.Memheap
