import RTThread.Lib.Run
import RTThread.SmallMem.Calls

set_option autoImplicit false

/-! # The structure of the small-memory heap

A run starts with `rt_system_heap_init` on any region it accepts and goes on with calls of
`rt_malloc`, `rt_realloc` and `rt_free` on live pointers and stores into live payloads. In every
state of a run the blocks tile the region, no two neighbours are free, the live payloads are apart
and large enough, and the two counters count (`heap_structure`).

`lfree` is another matter: `rt_realloc` does not move it when it cuts a block off in front of every
free block. It is the lowest free block as long as no call does that, and no longer after the first
one that does (`lfree_lowest`).
-/

namespace RTThread.SmallMem

open Handles (Held replaced)

variable {h h' : Heap} {rest rest' : List Nat} {p r n : Nat}

/-! ## The initial state -/

/-- What a field of the first header, at 0, or of the last one, at `E`, holds after the initialisation. -/
def initField (E b : Nat) : Field → Nat
  | .magic => HEAP_MAGIC
  | .used => if b = E then 1 else 0
  | .next => E
  | .prev => if b = E then E else 0

/-- The region that was accepted holds one free block. -/
theorem inv_of_init {mem : Mem} {beginAddr endAddr : Nat} (hlt : endAddr < 4294967296)
    (h₀ : rtSystemHeapInit mem beginAddr endAddr = some h) :
    Inv h [] ∧ Lowest h.mem [] h.lfree ∧ ∀ b, ¬ Used h.mem [] b := by
  unfold rtSystemHeapInit at h₀
  dsimp only at h₀
  split_ifs at h₀ with hacc
  obtain ⟨hacc₁, hacc₂⟩ := hacc
  set size := Memheap.sub32 (Memheap.sub32 (Memheap.rtAlignDown endAddr) (Memheap.rtAlign beginAddr))
    (2 * SIZEOF_STRUCT_MEM) with hsize
  have halign : Memheap.rtAlign beginAddr % 4 = 0 ∧ Memheap.rtAlignDown endAddr % 4 = 0 ∧
      Memheap.rtAlignDown endAddr ≤ endAddr := by
    unfold Memheap.rtAlign Memheap.rtAlignDown Memheap.RT_ALIGN_SIZE
    omega
  have hroom : Memheap.rtAlign beginAddr + size + 24 = Memheap.rtAlignDown endAddr := by
    unfold Memheap.sub32 Memheap.u32 SIZEOF_STRUCT_MEM at *
    omega
  have hu32 : Memheap.u32 (size + SIZEOF_STRUCT_MEM) = size + SIZEOF_STRUCT_MEM := by
    unfold Memheap.u32 SIZEOF_STRUCT_MEM
    omega
  rw [hu32] at h₀
  obtain ⟨E, hE⟩ : ∃ E, E = size + SIZEOF_STRUCT_MEM := ⟨_, rfl⟩
  rw [← hE] at h₀
  have hsep : ∀ a ∈ [0, E], ∀ b ∈ [0, E], a = b ∨ Apart a b := by
    have h₁ : Apart 0 E := Or.inl (by omega)
    intro a ha b hb
    simp only [List.mem_cons, List.not_mem_nil, or_false] at ha hb
    rcases ha with rfl | rfl <;> rcases hb with rfl | rfl
    · exact Or.inl rfl
    · exact Or.inr h₁
    · exact Or.inr h₁.symm
    · exact Or.inl rfl
  have hE0 : E ≠ 0 := by
    unfold SIZEOF_STRUCT_MEM at hE
    omega
  -- the last header is where the first one points to
  have hread : ((((mem.set .magic 0 HEAP_MAGIC).set .next 0 E).set .prev 0 0).set .used 0 0).get
      .next 0 = E := by
    rw [Mem.get_set (Or.inl rfl), Mem.get_set (Or.inl rfl), Mem.get_set (Or.inl rfl)]
    simp
  rw [hread] at h₀
  set m := (((((((mem.set .magic 0 HEAP_MAGIC).set .next 0 E).set .prev 0 0).set .used 0 0).set
    .magic E HEAP_MAGIC).set .used E 1).set .next E E).set .prev E E with hm
  have hget : ∀ f, ∀ b ∈ [0, E], m.get f b = initField E b f := by
    intro f b hb
    have hEm : E ∈ [0, E] := by simp
    have h0m : 0 ∈ [0, E] := by simp
    rw [hm, Mem.get_set (hsep _ hEm _ hb), Mem.get_set (hsep _ hEm _ hb),
      Mem.get_set (hsep _ hEm _ hb), Mem.get_set (hsep _ hEm _ hb), Mem.get_set (hsep _ h0m _ hb),
      Mem.get_set (hsep _ h0m _ hb), Mem.get_set (hsep _ h0m _ hb), Mem.get_set (hsep _ h0m _ hb)]
    simp only [List.mem_cons, List.not_mem_nil, or_false] at hb
    rcases hb with rfl | rfl <;> cases f <;> simp [initField, hE0.symm]
  have hnext : m.get .next 0 = E := hget .next 0 (by simp)
  have hused : m.get .used 0 = 0 := (hget .used 0 (by simp)).trans (if_neg hE0.symm)
  have hend : m.get .used E ≠ 0 := by
    rw [(hget .used E (by simp)).trans (if_pos rfl)]
    decide
  have hnone : ∀ b, ¬ Used m [] b := by
    rintro b ⟨hb, hu⟩
    exact hu ((List.mem_singleton.mp hb) ▸ hused)
  have hgap : 0 + SIZEOF_STRUCT_MEM ≤ E := by omega
  cases h₀
  refine ⟨⟨⟨⟨hnext, fun a ha => ?_, fun a ha hne => ?_, ?_, fun a ha => ?_, fun a ha => ?_, ?_, ?_, ?_⟩,
    Or.inr ⟨List.mem_cons_self, hused⟩, ?_, rfl, le_refl 0, hE, halign.1, ?_⟩, fun a ha _ => ?_,
    fun b hb => absurd hb (hnone b), rfl⟩, fun b _ _ => Nat.zero_le b, hnone⟩
  · rw [List.mem_singleton.mp ha, hnext]
    exact hgap
  · rw [List.mem_singleton.mp ha] at hne
    exact absurd hnext hne
  · exact (hget .prev 0 (by simp)).trans (if_neg hE0.symm)
  · rw [List.mem_singleton.mp ha]
  · rw [List.mem_singleton.mp ha]
    exact hget .magic 0 (by simp)
  · change E % 4 = 0
    unfold SIZEOF_STRUCT_MEM at hE
    omega
  · exact hend
  · exact hget .next E (by simp)
  · rw [usedBytes_cons, usedSize, if_pos hused]
    rfl
  · change Memheap.rtAlign beginAddr + E + SIZEOF_STRUCT_MEM < 4294967296
    unfold SIZEOF_STRUCT_MEM at *
    omega
  · rw [List.mem_singleton.mp ha, hnext]
    exact hend

/-! ## Runs -/

/-- The heap, and the pointers the callers hold with the sizes they asked for. -/
structure HeapSys where
  heap : Heap
  live : Nat → Option Nat

/-- A call of the interface, or a store of `v` at offset `i` of a payload. -/
inductive Call
  | malloc (size : Nat)
  | realloc (rmem newsize : Nat)
  | free (rmem : Nat)
  | store (rmem i v : Nat)

/-- A caller passes live pointers or `NULL` and sizes that `RT_ALIGN` does not wrap, and stores only
into the bytes it asked for. -/
def Call.Allowed (s : HeapSys) : Call → Prop
  | .malloc size => size + 3 < 4294967296
  | .realloc rmem newsize => (rmem = 0 ∨ (s.live rmem).isSome) ∧ newsize + 3 < 4294967296
  | .free rmem => rmem = 0 ∨ (s.live rmem).isSome
  | .store rmem i _ => ∃ n ∈ s.live rmem, i < n

instance (s : HeapSys) (c : Call) : Decidable (c.Allowed s) := by
  cases c <;> unfold Call.Allowed <;> infer_instance

/-- What a call returns and the state after it. -/
def Call.exec (s : HeapSys) : Call → Option (Nat × HeapSys)
  | .malloc size => (rtMalloc size s.heap).map fun r => (r.1, ⟨r.2, replaced s.live 0 r.1 size⟩)
  | .realloc rmem newsize => (rtRealloc rmem newsize s.heap).map fun r =>
      (r.1, ⟨r.2, if r.1 = 0 ∧ newsize ≠ 0 then s.live else replaced s.live rmem r.1 newsize⟩)
  | .free rmem => (rtFree rmem s.heap).map fun heap => (0, ⟨heap, replaced s.live rmem 0 0⟩)
  | .store rmem i v =>
      some (0, ⟨{ s.heap with mem := fun a =>
        if a = rmem - s.heap.heapPtr + i then v else s.heap.mem a }, s.live⟩)

/-- The heap was initialised over a region, and no pointer is held. -/
def Init (s : HeapSys) : Prop :=
  (∃ mem beginAddr endAddr, endAddr < 4294967296 ∧
    rtSystemHeapInit mem beginAddr endAddr = some s.heap) ∧ ∀ p, s.live p = none

def Step (s : HeapSys) (c : Call) (s' : HeapSys) : Prop :=
  c.Allowed s ∧ ∃ r, c.exec s = some (r, s')

/-- The call does not cut a block off in front of every free block. -/
def Call.KeepsLowest (s : HeapSys) : Call → Prop
  | .realloc rmem newsize => ¬ CutsBelow s.heap rmem newsize
  | _ => True

instance (s : HeapSys) (c : Call) : Decidable (c.KeepsLowest s) := by
  cases c <;> unfold Call.KeepsLowest <;> infer_instance

/-- The invariant of a run: the pointers the callers hold are the payloads in use. -/
structure HeapSysInv (s : HeapSys) (rest : List Nat) : Prop where
  inv : Inv s.heap rest
  held : Held view (s.heap, rest) s.live

/-- The lowest free block is where `lfree` points to. -/
abbrev HeapSys.Low (s : HeapSys) (rest : List Nat) : Prop := Lowest s.heap.mem rest s.heap.lfree

namespace HeapSysInv

variable {s s' : HeapSys}

theorem init (h₀ : Init s) : HeapSysInv s [] ∧ s.Low [] := by
  obtain ⟨⟨mem, beginAddr, endAddr, hend, hinit⟩, hlive⟩ := h₀
  obtain ⟨hi, hlow, hnone⟩ := inv_of_init hend hinit
  refine ⟨⟨hi, ⟨fun p => ?_, fun p n hn => ?_⟩⟩, hlow⟩
  · rw [hlive]
    refine iff_of_false ?_ (by simp)
    rintro ⟨b, -, hb⟩
    exact hnone b hb
  · rw [hlive] at hn
    exact absurd hn (by simp)

/-- The run after a call whose effect is known. -/
theorem of_effect (hs : HeapSysInv s rest) (hi : Inv h rest')
    (he : Effect s.heap rest h rest' p r n) :
    HeapSysInv ⟨h, replaced s.live p r n⟩ rest' := ⟨hi, hs.held.of_effect he⟩

/-- **The step lemma**: an allowed call returns, unless the region is too small for the smallest
payload, and keeps the invariant; `lfree` stays the lowest free block exactly when the call does not
cut off a block in front of it. -/
theorem exec (hs : HeapSysInv s rest) {c : Call} (hc : c.Allowed s) :
    (c.exec s = none ∧ s.heap.memSizeAligned < MIN_SIZE_ALIGNED) ∨
      ∃ r s' rest', c.exec s = some (r, s') ∧ HeapSysInv s' rest' ∧
        (s.Low rest → (s'.Low rest' ↔ c.KeepsLowest s)) := by
  have hzero : ∀ n, replaced s.live 0 0 n = s.live := fun _ => Handles.replaced_zero hs.held.zero
  have hlive : ∀ {p}, (s.live p).isSome → Live s.heap rest p := fun hp => (hs.held.live _).mpr hp
  cases c with
  | malloc size =>
      rcases hs.inv.rtMalloc hc with ⟨hnone, hmin⟩ | ⟨r, h', rest', heq, hi, -, he, hlow⟩
      · exact Or.inl ⟨by rw [Call.exec, hnone, Option.map_none], hmin⟩
      · exact Or.inr ⟨r, _, rest', by rw [Call.exec, heq, Option.map_some], hs.of_effect hi he,
          fun hl => iff_of_true (hlow hl) trivial⟩
  | free p =>
      refine Or.inr ?_
      rcases hc with rfl | hp
      · refine ⟨0, s, rest, ?_, hs, fun hl => iff_of_true hl trivial⟩
        rw [Call.exec, rtFree, if_pos rfl, Option.map_some, hzero]
      · obtain ⟨h', rest', heq, hi, -, he, hlow⟩ := hs.inv.rtFree (hlive hp)
        exact ⟨0, _, rest', by rw [Call.exec, heq, Option.map_some], hs.of_effect hi he,
          fun hl => iff_of_true (hlow hl) trivial⟩
  | store p i v =>
      refine Or.inr ?_
      obtain ⟨n, hn, hin⟩ := hc
      have hp : (s.live p).isSome := Option.isSome_iff_exists.mpr ⟨n, hn⟩
      have hroom : n ≤ payload s.heap p := hs.held.room p n hn
      obtain ⟨b, hpb, hb⟩ := hlive hp
      have hadd := hs.inv.add_payload hb.1
      rw [← hpb] at hadd
      have hout : ∀ a, ¬ (b + SIZEOF_STRUCT_MEM ≤ a ∧ a < s.heap.mem.get .next b) →
          (if a = p - s.heap.heapPtr + i then v else s.heap.mem a) = s.heap.mem a := by
        intro a ha
        rw [if_neg]
        omega
      obtain ⟨hi, he⟩ := hs.inv.store hb hout (n := n) (by omega)
      rw [← hpb] at he
      have hs' := hs.of_effect hi he
      rw [Handles.replaced_same (hs.held.ne_zero hp) hn] at hs'
      refine ⟨0, _, rest, rfl, hs', fun hl => iff_of_true (fun a ha hau => hl a ha ?_) trivial⟩
      rw [← hau]
      exact (hout _ (hs.inv.wf.field_notMem_payload hb.1 (List.mem_cons_of_mem _ ha) .used)).symm
  | realloc p size =>
      obtain ⟨hp, hsize⟩ := hc
      rcases hs.inv.rtRealloc (hp.imp_right hlive) hsize with
        ⟨hnone, hmin⟩ | ⟨r, h', rest', heq, hi, -, hor, hlow, hbad⟩
      · exact Or.inl ⟨by rw [Call.exec, hnone, Option.map_none], hmin⟩
      · have hkeep : Lowest s.heap.mem rest s.heap.lfree →
            (Lowest h'.mem rest' h'.lfree ↔ ¬ CutsBelow s.heap p size) := fun hl =>
          ⟨fun h₁ h₂ => hbad h₂ h₁, hlow hl⟩
        refine Or.inr ⟨r, _, rest', by rw [Call.exec, heq, Option.map_some], ?_, hkeep⟩
        rcases hor with ⟨rfl, hne, he⟩ | ⟨rfl, rfl, he⟩ | ⟨hr, hne, he⟩
        · have hs' := hs.of_effect hi he
          rw [hzero] at hs'
          simpa [hne] using hs'
        · simpa using hs.of_effect hi he
        · simpa [hr] using hs.of_effect hi he

/-- The invariant holds in every state of a run. -/
theorem of_reachable (hr : Trans.Reachable Init Step s) : ∃ rest, HeapSysInv s rest := by
  refine hr.invariant (I := fun s => ∃ rest, HeapSysInv s rest) (fun s hs => ⟨[], (init hs).1⟩) ?_
  rintro s c s' - ⟨rest, hs⟩ ⟨hc, r, heq⟩
  rcases hs.exec hc with ⟨hnone, -⟩ | ⟨r', s'', rest', heq', hs', -⟩
  · rw [hnone] at heq
    cases heq
  · rw [heq] at heq'
    cases heq'
    exact ⟨rest', hs'⟩

end HeapSysInv

/-! ## What holds in every state -/

/-- The blocks reached from `heap_ptr` through `next` tile the region up to `heap_end`. -/
structure Tiles (h : Heap) (rest : List Nat) : Prop where
  path : Dll.Path (h.mem.get .next) 0 rest h.heapEnd
  gap : ∀ a ∈ 0 :: rest, a + SIZEOF_STRUCT_MEM ≤ h.mem.get .next a
  heapEnd : h.heapEnd = h.memSizeAligned + SIZEOF_STRUCT_MEM

instance (h : Heap) (rest : List Nat) : Decidable (Tiles h rest) :=
  decidable_of_iff (Dll.Path (h.mem.get .next) 0 rest h.heapEnd ∧
      (∀ a ∈ 0 :: rest, a + SIZEOF_STRUCT_MEM ≤ h.mem.get .next a) ∧
      h.heapEnd = h.memSizeAligned + SIZEOF_STRUCT_MEM)
    ⟨fun t => ⟨t.1, t.2.1, t.2.2⟩, fun t => ⟨t.path, t.gap, t.heapEnd⟩⟩

theorem Tiles.unique (t : Tiles h rest) (t' : Tiles h rest') : rest = rest' := by
  have hlt : ∀ {l}, Tiles h l → ∀ a ∈ 0 :: l, a < h.mem.get .next a := by
    intro l t a ha
    have h₁ := t.gap a ha
    unfold SIZEOF_STRUCT_MEM at h₁
    omega
  exact t.path.unique t'.path (hlt t) (hlt t')

/-- **The structure of the heap.** -/
structure Structured (s : HeapSys) (rest : List Nat) : Prop extends Tiles s.heap rest where
  prev : ∀ a ∈ 0 :: rest, s.heap.mem.get .next a ≠ s.heap.heapEnd →
    s.heap.mem.get .prev (s.heap.mem.get .next a) = a
  noFreeNeighbours : ∀ a ∈ 0 :: rest, s.heap.mem.get .used a = 0 →
    s.heap.mem.get .used (s.heap.mem.get .next a) ≠ 0
  /-- A live pointer is the payload of a block in use, which has the bytes asked for. -/
  live : ∀ p, ∀ n ∈ s.live p, ∃ a ∈ 0 :: rest, s.heap.mem.get .used a ≠ 0 ∧
    p = s.heap.heapPtr + a + SIZEOF_STRUCT_MEM ∧
    p + payload s.heap p = s.heap.heapPtr + s.heap.mem.get .next a ∧ n ≤ payload s.heap p
  apart : ∀ p q, (s.live p).isSome → (s.live q).isSome → p ≠ q →
    p + payload s.heap p ≤ q ∨ q + payload s.heap q ≤ p
  /-- `used_mem` counts the blocks in use, their headers included. -/
  usedMem : s.heap.usedMem = (((0 :: rest).filter fun a => s.heap.mem.get .used a ≠ 0).map
    fun a => s.heap.mem.get .next a - a).sum
  maxMem : s.heap.maxMem = s.heap.usedLog.foldr max 0

theorem usedBytes_eq (m : Mem) (l : List Nat) : usedBytes m l =
    ((l.filter fun a => m.get .used a ≠ 0).map fun a => m.get .next a - a).sum := by
  induction l with
  | nil => rfl
  | cons a l ih =>
      rw [usedBytes_cons, ih, usedSize, List.filter_cons]
      by_cases hu : m.get .used a = 0 <;> simp [hu]

theorem HeapSysInv.tiles {s : HeapSys} (hs : HeapSysInv s rest) : Tiles s.heap rest :=
  ⟨hs.inv.wf.path, hs.inv.wf.gap, hs.inv.heapEnd⟩

theorem HeapSysInv.structured {s : HeapSys} (hs : HeapSysInv s rest) : Structured s rest := by
  refine ⟨hs.tiles, hs.inv.wf.prev, hs.inv.adj, fun p n hn => ?_, fun p q hp hq hpq => ?_, ?_,
    hs.inv.maxMem⟩
  · obtain ⟨b, rfl, hb⟩ := (hs.held.live p).mpr (Option.isSome_iff_exists.mpr ⟨n, hn⟩)
    have hadd := hs.inv.add_payload hb.1
    dsimp only at hadd ⊢
    exact ⟨b, hb.1, hb.2, rfl, by omega, hs.held.room _ n hn⟩
  · obtain ⟨b, rfl, hb⟩ := (hs.held.live p).mpr hp
    obtain ⟨c, rfl, hc⟩ := (hs.held.live q).mpr hq
    have h₁ := hs.inv.add_payload hb.1
    have h₂ := hs.inv.add_payload hc.1
    dsimp only at h₁ h₂ ⊢
    rcases Nat.lt_trichotomy b c with hlt | rfl | hlt
    · have h₃ := hs.inv.wf.next_le hb.1 hc.1 hlt
      omega
    · exact absurd rfl hpq
    · have h₃ := hs.inv.wf.next_le hc.1 hb.1 hlt
      omega
  · rw [← usedBytes_eq]
    exact hs.inv.usedMem

/-- **Every run keeps the structure of the heap**, and an allowed call returns where the smallest
payload fits into the region. -/
theorem heap_structure {s : HeapSys} (hr : Trans.Reachable Init Step s) :
    (∃ rest, Structured s rest) ∧ (MIN_SIZE_ALIGNED ≤ s.heap.memSizeAligned →
      ∀ c : Call, c.Allowed s → ∃ r s', c.exec s = some (r, s')) := by
  obtain ⟨rest, hs⟩ := HeapSysInv.of_reachable hr
  refine ⟨⟨rest, hs.structured⟩, fun hmin c hc => ?_⟩
  rcases hs.exec hc with ⟨-, hlt⟩ | ⟨r, s', -, heq, -⟩
  · omega
  · exact ⟨r, s', heq⟩

/-- A region of one kilobyte. -/
def smallRegion : HeapSys :=
  ⟨(rtSystemHeapInit (fun _ => 0) 1000 2001).getD ⟨fun _ => 0, 0, 0, 0, 0, 0, 0, 0, []⟩, fun _ => none⟩

theorem smallRegion_init : Init smallRegion := by
  have haccept : InitAccepts 1000 2001 := by decide
  refine ⟨⟨fun _ => 0, 1000, 2001, by decide, ?_⟩, fun _ => rfl⟩
  unfold smallRegion rtSystemHeapInit
  simp only [if_pos haccept, Option.getD_some]

/-- A list of allowed calls, as a partial function. -/
def runCalls (s : HeapSys) (cs : List Call) : Option HeapSys :=
  Trans.runList (Trans.stepIf (fun s (c : Call) => (c.exec s).map (·.2)) fun s c => c.Allowed s) s cs

theorem reachable_of_runCalls {s s' : HeapSys} {cs : List Call} (h₀ : Init s)
    (h : runCalls s cs = some s') : Trans.Reachable Init Step s' := by
  refine (Trans.reachable_of_runList_stepIf h₀ h).mono fun s c s' hc => ⟨hc.2, ?_⟩
  obtain ⟨⟨r, t⟩, ht, rfl⟩ := Option.map_eq_some_iff.mp hc.1
  exact ⟨r, ht⟩

/-- A block is cut, and moved when it grows again. -/
theorem heap_structure_moved : ∃ s : HeapSys, s.live 1336 = some 80 ∧ s.live 1124 = some 200 ∧
    s.heap.usedMem = 304 ∧ s.heap.maxMem = 356 ∧ ∃ rest, Structured s rest := by
  have hrun : (runCalls smallRegion
      [.malloc 100, .malloc 200, .realloc 1012 40, .store 1012 39 7, .realloc 1012 80]).map
        (fun s => decide (s.live 1336 = some 80 ∧ s.live 1124 = some 200 ∧ s.heap.usedMem = 304 ∧
          s.heap.maxMem = 356)) = some true := by
    decide +kernel
  obtain ⟨s, hs, hall⟩ := Option.map_eq_some_iff.mp hrun
  obtain ⟨h₁, h₂, h₃, h₄⟩ := of_decide_eq_true hall
  exact ⟨s, h₁, h₂, h₃, h₄, (heap_structure (reachable_of_runCalls smallRegion_init hs)).1⟩

/-! ## The lowest free block -/

/-- `lfree` points to the free block of lowest address, or to `heap_end` when there is none. -/
def LfreeLowest (h : Heap) (rest : List Nat) : Prop :=
  (h.lfree = h.heapEnd ∧ ∀ a ∈ 0 :: rest, h.mem.get .used a ≠ 0) ∨
    (h.lfree ∈ 0 :: rest ∧ h.mem.get .used h.lfree = 0 ∧
      ∀ a ∈ 0 :: rest, h.mem.get .used a = 0 → h.lfree ≤ a)

instance (h : Heap) (rest : List Nat) : Decidable (LfreeLowest h rest) := instDecidableOr

theorem Inv.lfreeLowest_iff (i : Inv h rest) : LfreeLowest h rest ↔ Lowest h.mem rest h.lfree := by
  constructor
  · rintro (⟨-, hnone⟩ | ⟨-, -, hlow⟩)
    · exact fun b hb hbu => absurd hbu (hnone b hb)
    · exact hlow
  · intro hlow
    rcases i.lfree with hE | ⟨hm, hu⟩
    · refine Or.inl ⟨hE, fun a ha hau => ?_⟩
      have h₁ := hlow a ha hau
      have h₂ := i.wf.lt_end ha
      omega
    · exact Or.inr ⟨hm, hu, hlow⟩

/-- `lfree` is the lowest of the blocks that tile the region. -/
def LowestFree (s : HeapSys) : Prop := ∃ rest, Tiles s.heap rest ∧ LfreeLowest s.heap rest

theorem HeapSysInv.lowestFree_iff {s : HeapSys} (hs : HeapSysInv s rest) :
    LowestFree s ↔ s.Low rest := by
  constructor
  · rintro ⟨rest', t, hl⟩
    have he : rest' = rest := t.unique hs.tiles
    exact hs.inv.lfreeLowest_iff.mp (he ▸ hl)
  · exact fun hl => ⟨rest, hs.tiles, hs.inv.lfreeLowest_iff.mpr hl⟩

/-- **`lfree`** is the lowest free block in every state of a run whose calls cut no block off in front
of it, and the first call that does makes it wrong. -/
theorem lfree_lowest {s : HeapSys}
    (hr : Trans.Reachable Init (fun s (c : Call) s' => Step s c s' ∧ c.KeepsLowest s) s) :
    LowestFree s ∧ ∀ (c : Call) s', Step s c s' → (LowestFree s' ↔ c.KeepsLowest s) := by
  have hinv : ∃ rest, HeapSysInv s rest ∧ s.Low rest := by
    refine hr.invariant (I := fun s => ∃ rest, HeapSysInv s rest ∧ s.Low rest)
      (fun s hs => ⟨[], HeapSysInv.init hs⟩) ?_
    rintro s c s' - ⟨rest, hs, hl⟩ ⟨⟨hc, r, heq⟩, hk⟩
    rcases hs.exec hc with ⟨hnone, -⟩ | ⟨r', s'', rest', heq', hs', hlow⟩
    · rw [hnone] at heq
      cases heq
    · rw [heq] at heq'
      cases heq'
      exact ⟨rest', hs', (hlow hl).mpr hk⟩
  obtain ⟨rest, hs, hl⟩ := hinv
  refine ⟨hs.lowestFree_iff.mpr hl, ?_⟩
  rintro c s' ⟨hc, r, heq⟩
  rcases hs.exec hc with ⟨hnone, -⟩ | ⟨r', s'', rest', heq', hs', hlow⟩
  · rw [hnone] at heq
    cases heq
  · rw [heq] at heq'
    cases heq'
    exact hs'.lowestFree_iff.trans (hlow hl)

/-- The block behind the one that is cut is free. -/
theorem lfree_lowest_cut : ∃ s : HeapSys, s.heap.lfree = 52 ∧ LowestFree s := by
  have hrun : (Trans.runList (Trans.stepIf (fun s (c : Call) => (c.exec s).map (·.2))
      fun s c => c.Allowed s ∧ c.KeepsLowest s) smallRegion
        [.malloc 100, .realloc 1012 40]).map (fun s => decide (s.heap.lfree = 52)) = some true := by
    decide +kernel
  obtain ⟨s, hs, hall⟩ := Option.map_eq_some_iff.mp hrun
  refine ⟨s, of_decide_eq_true hall, (lfree_lowest ?_).1⟩
  refine (Trans.reachable_of_runList_stepIf smallRegion_init hs).mono fun s c s' hc =>
    ⟨⟨hc.2.1, ?_⟩, hc.2.2⟩
  obtain ⟨⟨r, t⟩, ht, rfl⟩ := Option.map_eq_some_iff.mp hc.1
  exact ⟨r, ht⟩

/-- Cutting the first of two blocks leaves a free block below `lfree`: one of 160 bytes, which no
allocation finds. -/
theorem lfree_not_lowest : ¬ ∀ s : HeapSys, Trans.Reachable Init Step s → LowestFree s := by
  have hrun : (runCalls smallRegion [.malloc 200, .malloc 100, .realloc 1012 40]).map
      (fun s => decide (¬ s.Low [52, 212, 324] ∧ Tiles s.heap [52, 212, 324])) = some true := by
    decide +kernel
  obtain ⟨s, hs, hall⟩ := Option.map_eq_some_iff.mp hrun
  obtain ⟨hlow, htiles⟩ := of_decide_eq_true hall
  intro hclaim
  have hr := reachable_of_runCalls smallRegion_init hs
  obtain ⟨rest, hinv⟩ := HeapSysInv.of_reachable hr
  have he : rest = [52, 212, 324] := hinv.tiles.unique htiles
  subst he
  exact hlow (hinv.lowestFree_iff.mp (hclaim s hr))

end RTThread.SmallMem
