import RTThread.Memheap.Integrity

set_option autoImplicit false

/-! # Completeness of `rt_memheap_alloc`

The search finds the first block of the free list with room for the request. It is only started
when the request is smaller than `available_size`, so a request equal to the whole available size
is refused although one free block holds all of it; every other request is served whenever some
block of the free list has room for it.
-/

namespace RTThread.Memheap

variable {A : InitArgs} {s : Sys} {rest fl r : List Nat} {size n : Nat}

/-! ## Requests that are served -/

/-- `ptr` is the payload of the first block of the free list `fl` with room for `n` bytes, and the
call put that block, and no other, in use. -/
def TakesFirst (A : InitArgs) (s : State) (r fl : List Nat) (n ptr : Nat) (s' : State) : Prop :=
  ∃ l₁ b l₂, fl = l₁ ++ b :: l₂ ∧ (∀ c ∈ l₁, memitemSize s.mem c < n) ∧ n ≤ memitemSize s.mem b ∧
    ptr = b + RT_MEMHEAP_SIZE ∧ ∃ r' fl', Integrity A s' r' fl' ∧
      ∀ a, Used A.layout s'.mem (r' ++ [A.tail]) a ↔ Used A.layout s.mem (r ++ [A.tail]) a ∨ a = b

/-- A request of `size` bytes is served if and only if some free block has room for it, and then
by the first such block. -/
def Complete (A : InitArgs) (s : State) (r fl : List Nat) (size : Nat) : Prop :=
  ∃ ptr s', s.withHeap A.heap (rtMemheapAlloc A.heap size) = some (ptr, s') ∧
    (ptr ≠ 0 ↔ ∃ b ∈ fl, roundSize size ≤ memitemSize s.mem b) ∧
    (ptr ≠ 0 → TakesFirst A s r fl (roundSize size) ptr s')

/-- The request is the whole available size, and one free block holds all of it. -/
def TakesAll (A : InitArgs) (s : State) (fl : List Nat) (size : Nat) : Prop :=
  roundSize size = (s.heap A.heap).availableSize ∧ ∃ b ∈ fl, roundSize size ≤ memitemSize s.mem b

/-! ## Exactly which requests are served -/

/-- A free block is no larger than the available size. -/
theorem Inv.memitemSize_le {L : Layout} {p : Pool} {b : Nat} (i : Inv L p rest fl) (hb : b ∈ fl) :
    memitemSize p.mem b = blockSize p.mem b ∧ blockSize p.mem b ≤ p.heap.availableSize := by
  refine ⟨i.wf.memitemSize_eq (i.block hb).1 (i.block hb).2, ?_⟩
  rw [i.available]
  exact List.single_le_sum (fun _ _ => Nat.zero_le _) _ (List.mem_map_of_mem hb)

/-- The block taken is the first one of the free list. -/
theorem SysInv.takesFirst (hs : SysInv A s (r ++ [A.tail]) fl) {s' : State} {b : Nat}
    {rest' fl' : List Nat} (hfirst : FirstFit s.state.mem fl n b)
    (i' : Inv A.layout (s'.pool A.heap) rest' fl')
    (htaken : Taken A.layout s.state.mem (r ++ [A.tail]) s'.mem rest' b) :
    TakesFirst A s.state r fl n (b + RT_MEMHEAP_SIZE) s' := by
  obtain ⟨l₁, l₂, rfl, hall, hfit⟩ := hfirst
  have hsz : ∀ c ∈ l₁ ++ b :: l₂, memitemSize s.state.mem c = blockSize s.state.mem c :=
    fun c hc => (hs.inv.memitemSize_le hc).1
  obtain ⟨r', rfl, hint⟩ := i'.integrity
  refine ⟨l₁, b, l₂, rfl, fun c hc => ?_, ?_, rfl, r', fl', hint, htaken.used⟩
  · rw [hsz c (List.mem_append_left _ hc)]
    exact hall c hc
  · rw [hsz b (by simp)]
    exact hfit

theorem SysInv.complete_iff (hs : SysInv A s (r ++ [A.tail]) fl) (size : Nat) :
    Complete A s.state r fl size ↔ ¬ TakesAll A s.state fl size := by
  have hfits : ∀ b ∈ fl, roundSize size ≤ memitemSize s.state.mem b →
      roundSize size ≤ blockSize s.state.mem b ∧
        roundSize size ≤ (s.state.heap A.heap).availableSize := fun b hb hle => by
    obtain ⟨h1, h2⟩ := hs.inv.memitemSize_le hb
    have h3 : roundSize size ≤ blockSize s.state.mem b := h1 ▸ hle
    exact ⟨h3, h3.trans h2⟩
  obtain ⟨ptr, p', halloc, hor⟩ :=
    hs.inv.rtMemheapAlloc_first hs.lock (rfl : roundSize size = _)
  obtain ⟨s', hcall, rfl, -⟩ := State.withHeap_eq halloc
  rcases hor with ⟨rfl, -, hnone⟩ |
    ⟨b, rest', fl', -, rfl, hav, hfirst, i', -, htaken, -, -, -⟩
  · -- nothing is returned: either the search found nothing, or it was not started
    constructor
    · rintro ⟨ptr', s'', hcall', hiff, -⟩ ⟨-, hex⟩
      obtain ⟨rfl, -⟩ : 0 = ptr' ∧ s' = s'' :=
        Prod.mk.inj (Option.some.inj (hcall.symm.trans hcall'))
      exact hiff.mpr hex rfl
    · intro hall
      refine ⟨0, s', hcall, iff_of_false (fun h => h rfl) ?_, fun h => absurd rfl h⟩
      rintro ⟨b, hb, hle⟩
      obtain ⟨hfit, hle'⟩ := hfits b hb hle
      rcases Nat.lt_or_eq_of_le hle' with hlt | heq
      · exact absurd (hnone hlt b hb) (Nat.not_lt.mpr hfit)
      · exact hall ⟨heq, b, hb, hle⟩
  · have hne : b + RT_MEMHEAP_SIZE ≠ 0 := Nat.succ_ne_zero _
    have hfit : ∃ b ∈ fl, roundSize size ≤ memitemSize s.state.mem b := by
      obtain ⟨l₁, l₂, hl, -, hle⟩ := hfirst
      have hb : b ∈ fl := by simp [hl]
      exact ⟨b, hb, (hs.inv.memitemSize_le hb).1 ▸ hle⟩
    refine iff_of_true ?_ fun hall => absurd hall.1 (Nat.ne_of_lt hav)
    exact ⟨_, s', hcall, iff_of_true hne hfit, fun _ => hs.takesFirst hfirst i' htaken⟩

/-- **Completeness of `rt_memheap_alloc`.** In every state of every run, a request is served as
the free list allows, except for the request that is the whole available size. -/
theorem alloc_complete_iff (A : InitArgs) {s : Sys}
    (h : Trans.Reachable A.Init A.RegularStep s) :
    ∃ r fl, Integrity A s.state r fl ∧
      ∀ size, Complete A s.state r fl size ↔ ¬ TakesAll A s.state fl size := by
  obtain ⟨rest, fl, hs⟩ := SysInv.of_run h
  obtain ⟨r, rfl, hint⟩ := hs.inv.integrity
  exact ⟨r, fl, hint, hs.complete_iff⟩

theorem smallPoolInit_run : Trans.Reachable smallPool.Init smallPool.RegularStep smallPoolInit :=
  .init ⟨⟨fun _ => 0, rfl⟩, rfl⟩

/-- A request of 100 bytes is served from the single free block. -/
theorem alloc_complete_smallPool : ∃ r fl, Integrity smallPool smallPoolInit.state r fl ∧
    Complete smallPool smallPoolInit.state r fl 100 := by
  obtain ⟨r, fl, hint, hiff⟩ := alloc_complete_iff smallPool smallPoolInit_run
  refine ⟨r, fl, hint, (hiff 100).mpr fun hall => ?_⟩
  have hne : roundSize 100 ≠ (smallPoolInit.state.heap smallPool.heap).availableSize := by
    decide +kernel
  exact hne hall.1

/-- The initial pool has 976 bytes available in one free block, and refuses a request of 976. -/
theorem whole_pool_refused : ∃ s, Trans.Reachable smallPool.Init smallPool.RegularStep s ∧
    ∃ r fl, Integrity smallPool s.state r fl ∧ r = [] ∧ fl = [8192] ∧
      (s.state.heap smallPool.heap).availableSize = 976 ∧ memitemSize s.state.mem 8192 = 976 ∧
      ¬ Complete smallPool s.state r fl 976 := by
  have hs : SysInv smallPool smallPoolInit [smallPool.tail] [8192] :=
    smallPool.sysInv ⟨⟨fun _ => 0, rfl⟩, rfl⟩
  have hav : (smallPoolInit.state.heap smallPool.heap).availableSize = 976 := by decide +kernel
  have hsize : memitemSize smallPoolInit.state.mem 8192 = 976 := by decide +kernel
  obtain ⟨r, hr, hint⟩ := hs.inv.integrity
  obtain rfl : r = [] := by simpa using hr
  refine ⟨_, smallPoolInit_run, [], [8192], hint, rfl, rfl, hav, hsize, fun hc => ?_⟩
  refine (hs.complete_iff 976).mp hc ⟨hav.symm ▸ ?_, 8192, List.mem_singleton_self _, ?_⟩
  · decide
  · rw [hsize]
    decide

end RTThread.Memheap
