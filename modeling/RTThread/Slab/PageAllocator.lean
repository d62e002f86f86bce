import RTThread.Lib.Run
import RTThread.Slab.PageRuns

set_option autoImplicit false

/-! # The page allocator

A run starts with the pages of any region and goes on with calls of `rt_page_alloc` and of
`rt_page_free` on what was allocated, and with stores to allocated pages, in any order. In every state
of a run the free pages are a list of separated runs, disjoint from the pages allocated, no page is
lost, and an allocation fails exactly when no run is long enough.
-/

namespace RTThread.Slab

open Runs (Run Covers SepFrom)

variable {h h' : PageHeap} {rs : List Run} {run : Run} {npages : Nat}

/-- The invariant of the page list. -/
structure PageInv (h : PageHeap) (rs : List Run) : Prop where
  rep : Rep h.mem h.pageList rs
  sep : SepFrom (pageOf h.heapStart) rs
  lt : ∀ q, Covers rs q → q < pageOf h.heapEnd
  start_pos : 0 < pageOf h.heapStart
  start_lt : pageOf h.heapStart < pageOf h.heapEnd
  size : pageOf h.heapEnd - pageOf h.heapStart = (h.heapEnd - h.heapStart) / RT_MM_PAGE_SIZE
  sem : h.heapSem = 1

/-- The variables no call changes. -/
structure SamePages (h h' : PageHeap) : Prop where
  heapStart : h'.heapStart = h.heapStart
  heapEnd : h'.heapEnd = h.heapEnd

namespace PageInv

variable (i : PageInv h rs)

include i

/-- The walk along the list ends. -/
theorem length_lt : rs.length < h.steps := by
  have h₁ := i.sep.length_le_total
  have h₂ := i.sep.add_total_le i.start_lt.le i.lt
  have h₃ := i.size
  unfold PageHeap.steps
  omega

/-- **`rt_page_alloc`**. -/
theorem alloc (hpos : 0 < npages) : ∃ h', rtPageAlloc npages h =
      some (found (Runs.take npages rs).1, h') ∧ PageInv h' (Runs.take npages rs).2 ∧
    SamePages h h' ∧ ∀ a, ¬ Covers rs (pageOf a) → h'.mem a = h.mem a := by
  have hlen : rs.length < ({ h with heapSem := 0 } : PageHeap).steps := i.length_lt
  obtain ⟨h', hloop, hrep, fr⟩ := pageAllocLoop_spec (h := { h with heapSem := 0 }) hpos
    (show Rep h.mem (PageHeap.deref _ .list) rs from i.rep) i.sep trivial hlen
  have hst : h'.heapStart = h.heapStart := fr.heapStart
  have hen : h'.heapEnd = h.heapEnd := fr.heapEnd
  have hsub : ∀ q, Covers (Runs.take npages rs).2 q → Covers rs q := by
    intro q hq
    cases htake : (Runs.take npages rs).1 with
    | none => exact Runs.take_of_none htake ▸ hq
    | some p => exact ((i.sep.covers_take htake q).1).mpr (Or.inl hq)
  refine ⟨h'.semRelease, ?_, ⟨hrep, ?_, fun q hq => ?_, ?_, ?_, ?_, ?_⟩, ⟨hst, hen⟩,
    fun a ha => fr.mem a ha (by simp)⟩
  · have hne : npages ≠ 0 := by omega
    simp only [rtPageAlloc, if_neg hne, PageHeap.semTake, i.sem, Option.bind_eq_bind,
      Option.bind_some, one_ne_zero, if_false, Nat.sub_self, hloop]
  · change SepFrom (pageOf h'.heapStart) _
    rw [hst]
    exact i.sep.take
  · change q < pageOf h'.heapEnd
    rw [hen]
    exact i.lt q (hsub q hq)
  · change 0 < pageOf h'.heapStart
    rw [hst]
    exact i.start_pos
  · change pageOf h'.heapStart < pageOf h'.heapEnd
    rw [hst, hen]
    exact i.start_lt
  · change pageOf h'.heapEnd - pageOf h'.heapStart = (h'.heapEnd - h'.heapStart) / RT_MM_PAGE_SIZE
    rw [hst, hen]
    exact i.size
  · change h'.heapSem + 1 = 1
    rw [fr.heapSem]

/-- **`rt_page_free`** of pages that are not free. -/
theorem free (hlen : 0 < run.len) (hlo : pageOf h.heapStart ≤ run.start)
    (hhi : run.stop ≤ pageOf h.heapEnd) (hnew : ∀ q, run.Contains q → ¬ Covers rs q) :
    ∃ h', rtPageFree (pageAddr run.start) run.len h = some h' ∧ PageInv h' (Runs.put run rs) ∧
      SamePages h h' ∧
      ∀ a, ¬ Covers rs (pageOf a) → ¬ run.Contains (pageOf a) → h'.mem a = h.mem a := by
  have hstart := i.start_pos
  have haddr : pageAddr run.start ≠ 0 := pageAddr_ne_zero.mpr (by omega)
  have hfuel : rs.length < ({ h with heapSem := 0 } : PageHeap).steps := i.length_lt
  obtain ⟨h', hloop, hrep, fr⟩ := pageFreeLoop_spec (h := { h with heapSem := 0 }) haddr hlen
    (show Rep h.mem (PageHeap.deref _ .list) rs from i.rep) i.sep trivial hlo hnew hfuel
  have hst : h'.heapStart = h.heapStart := fr.heapStart
  have hen : h'.heapEnd = h.heapEnd := fr.heapEnd
  have halign : pageAddr run.start % RT_MM_PAGE_SIZE = 0 := Nat.mul_mod_left _ _
  refine ⟨h'.semRelease, ?_, ⟨hrep, ?_, fun q hq => ?_, ?_, ?_, ?_, ?_⟩, ⟨hst, hen⟩,
    fun a ha ha' => fr.mem a (fun hc => hc.elim ha ha') (by simp)⟩
  · have hne : run.len ≠ 0 := by omega
    simp only [rtPageFree, if_pos (And.intro haddr (And.intro halign hne)), PageHeap.semTake, i.sem,
      Option.bind_eq_bind, Option.bind_some, one_ne_zero, if_false, Nat.sub_self, hloop]
  · change SepFrom (pageOf h'.heapStart) _
    rw [hst]
    exact i.sep.put hlo hlen hnew
  · change q < pageOf h'.heapEnd
    rw [hen]
    rcases Runs.covers_put.mp hq with hq | hq
    · exact i.lt q hq
    · exact hq.2.trans_le hhi
  · change 0 < pageOf h'.heapStart
    rw [hst]
    exact hstart
  · change pageOf h'.heapStart < pageOf h'.heapEnd
    rw [hst, hen]
    exact i.start_lt
  · change pageOf h'.heapEnd - pageOf h'.heapStart = (h'.heapEnd - h'.heapStart) / RT_MM_PAGE_SIZE
    rw [hst, hen]
    exact i.size
  · change h'.heapSem + 1 = 1
    rw [fr.heapSem]

/-- A store to a page that is not free. -/
theorem store {m' : Mem} (hm : ∀ a, Covers rs (pageOf a) → m' a = h.mem a) :
    PageInv { h with mem := m' } rs :=
  ⟨i.rep.congr_of_covers i.sep hm, i.sep, i.lt, i.start_pos, i.start_lt, i.size, i.sem⟩

end PageInv

/-! ## The initial state -/

/-- The region that was accepted is one run. -/
theorem pageInv_of_init {mem : Mem} {beginAddr endAddr : Nat}
    (h₀ : pagesInit mem beginAddr endAddr = some h) :
    PageInv h [⟨pageOf h.heapStart, (h.heapEnd - h.heapStart) / RT_MM_PAGE_SIZE⟩] := by
  unfold pagesInit rtPageInit at h₀
  dsimp only at h₀
  split_ifs at h₀ with hge hne
  obtain ⟨s, hs⟩ : ∃ s, pageAlign beginAddr = pageAddr s := ⟨_, rfl⟩
  obtain ⟨e, he⟩ : ∃ e, pageAlignDown endAddr = pageAddr e := ⟨_, rfl⟩
  rw [hs, he] at h₀ hge hne
  have hlt : s < e := by
    unfold pageAddr RT_MM_PAGE_SIZE at hge
    omega
  have hsize : (pageAddr e - pageAddr s) / RT_MM_PAGE_SIZE = e - s := by
    unfold pageAddr RT_MM_PAGE_SIZE
    omega
  rw [hsize] at h₀
  have hpos : 0 < s := by
    have h₁ := pageAddr_ne_zero.mp hne.1
    omega
  have i : PageInv { mem, pageList := 0, heapSem := 1, heapStart := pageAddr s,
                     heapEnd := pageAddr e } [] := by
    refine ⟨rfl, trivial, fun q hq => absurd hq Runs.covers_nil, ?_, ?_, ?_, rfl⟩
    · rw [pageOf_pageAddr]
      exact hpos
    · rw [pageOf_pageAddr, pageOf_pageAddr]
      exact hlt
    · rw [pageOf_pageAddr, pageOf_pageAddr]
      exact hsize.symm
  obtain ⟨h', heq, i', hsame, -⟩ := i.free (show 0 < (⟨s, e - s⟩ : Run).len by dsimp only; omega)
    (by rw [pageOf_pageAddr]) (by
      rw [pageOf_pageAddr]
      unfold Run.stop
      dsimp only
      omega) fun q _ => Runs.covers_nil
  rw [heq] at h₀
  cases h₀
  rw [hsame.heapStart, hsame.heapEnd]
  dsimp only
  rw [hsize, pageOf_pageAddr]
  exact i'

/-! ## Runs -/

/-- The heap, and the runs of pages that were allocated. -/
structure PageSys where
  heap : PageHeap
  held : List Run

/-- A call of the interface, or a store of `v` at the address `a`. -/
inductive PageCall
  | alloc (npages : Nat)
  | free (run : Run)
  | store (a v : Nat)

/-- A run that is given back was allocated; stores go to allocated pages. -/
def PageCall.Allowed (s : PageSys) : PageCall → Prop
  | .alloc _ => True
  | .free run => run ∈ s.held
  | .store a _ => ∃ r ∈ s.held, r.start ≤ pageOf a ∧ pageOf a < r.stop

instance (s : PageSys) (c : PageCall) : Decidable (c.Allowed s) := by
  cases c <;> unfold PageCall.Allowed <;> infer_instance

/-- What a call returns and the state after it. -/
def PageCall.exec (s : PageSys) : PageCall → Option (Nat × PageSys)
  | .alloc npages => (rtPageAlloc npages s.heap).map fun r =>
      (r.1, ⟨r.2, if r.1 = 0 then s.held else ⟨pageOf r.1, npages⟩ :: s.held⟩)
  | .free run => (rtPageFree (pageAddr run.start) run.len s.heap).map fun heap =>
      (0, ⟨heap, s.held.erase run⟩)
  | .store a v =>
      some (0, ⟨{ s.heap with mem := fun c => if c = a then v else s.heap.mem c }, s.held⟩)

/-- The pages of a region, none of them allocated. -/
def PageInit (s : PageSys) : Prop :=
  (∃ mem beginAddr endAddr, pagesInit mem beginAddr endAddr = some s.heap) ∧ s.held = []

def PageStep (s : PageSys) (c : PageCall) (s' : PageSys) : Prop :=
  c.Allowed s ∧ ∃ r, c.exec s = some (r, s')

/-- The pages held are apart from each other and from the free ones, and none is lost. -/
structure PageSysInv (s : PageSys) (rs : List Run) : Prop where
  inv : PageInv s.heap rs
  apart : s.held.Pairwise fun r t => ∀ q, r.Contains q → ¬ t.Contains q
  notFree : ∀ r ∈ s.held, ∀ q, r.Contains q → ¬ Covers rs q
  held : ∀ r ∈ s.held, 0 < r.len ∧ pageOf s.heap.heapStart ≤ r.start ∧
    r.stop ≤ pageOf s.heap.heapEnd
  total : Runs.total rs + Runs.total s.held =
    (s.heap.heapEnd - s.heap.heapStart) / RT_MM_PAGE_SIZE

namespace PageSysInv

variable {s s' : PageSys}

theorem init (h₀ : PageInit s) : ∃ rs, PageSysInv s rs := by
  obtain ⟨⟨mem, beginAddr, endAddr, hinit⟩, hheld⟩ := h₀
  refine ⟨_, pageInv_of_init hinit, ?_, ?_, ?_, ?_⟩
  · rw [hheld]
    exact List.Pairwise.nil
  · rw [hheld]
    exact fun r hr => absurd hr (by simp)
  · rw [hheld]
    exact fun r hr => absurd hr (by simp)
  · rw [hheld]
    simp

/-- An allocation of at least one page. -/
theorem alloc (hs : PageSysInv s rs) (hpos : 0 < npages) :
    ∃ b s', (PageCall.alloc npages).exec s = some (b, s') ∧
      PageSysInv s' (Runs.take npages rs).2 ∧ (b = 0 ↔ ∀ r ∈ rs, r.len < npages) := by
  obtain ⟨h', heq, i', hsame, -⟩ := hs.inv.alloc hpos
  refine ⟨_, _, by rw [PageCall.exec, heq, Option.map_some], ?_⟩
  cases htake : (Runs.take npages rs).1 with
  | none =>
      rw [Runs.take_of_none htake] at i' ⊢
      simp only [found, if_true]
      refine ⟨⟨i', hs.apart, hs.notFree, ?_, ?_⟩, iff_of_true trivial (Runs.take_eq_none.mp htake)⟩
      · rw [hsame.heapStart, hsame.heapEnd]
        exact hs.held
      · rw [hsame.heapStart, hsame.heapEnd]
        exact hs.total
  | some p =>
      have hcov := fun q => hs.inv.sep.covers_take htake q
      have hself : ∀ q, p ≤ q ∧ q < p + npages → Covers rs q := fun q hq =>
        (hcov q).1.mpr (Or.inr hq)
      have hp : pageOf s.heap.heapStart ≤ p :=
        hs.inv.sep.le_of_covers (hself p ⟨le_refl _, by omega⟩)
      have hend : p + npages ≤ pageOf s.heap.heapEnd := by
        have h₁ := hs.inv.lt (p + npages - 1) (hself _ ⟨by omega, by omega⟩)
        omega
      have hne : pageAddr p ≠ 0 := by
        have h₁ := hs.inv.start_pos
        rw [pageAddr_ne_zero]
        omega
      simp only [found, hne, if_false, pageOf_pageAddr]
      refine ⟨⟨i', ?_, ?_, ?_, ?_⟩, iff_of_false id fun hall => ?_⟩
      · refine List.pairwise_cons.mpr ⟨fun t ht q hq hqt => ?_, hs.apart⟩
        exact hs.notFree t ht q hqt (hself q hq)
      · intro r hr q hq hc
        rcases List.mem_cons.mp hr with rfl | hr
        · exact (hcov q).2 ⟨hc, hq⟩
        · exact hs.notFree r hr q hq ((hcov q).1.mpr (Or.inl hc))
      · intro r hr
        rw [hsame.heapStart, hsame.heapEnd]
        rcases List.mem_cons.mp hr with rfl | hr
        · exact ⟨hpos, hp, hend⟩
        · exact hs.held r hr
      · have h₁ := Runs.total_take htake
        have h₂ := hs.total
        rw [hsame.heapStart, hsame.heapEnd, Runs.total_cons]
        dsimp only
        omega
      · rw [Runs.take_eq_none.mpr hall] at htake
        cases htake

/-- Members of a list that are pairwise apart are apart from what is left without them. -/
theorem apart_erase {l : List Run} (h : l.Pairwise fun r t => ∀ q, r.Contains q → ¬ t.Contains q)
    (hr : run ∈ l) {t : Run} (ht : t ∈ l.erase run) {q : Nat} (hq : t.Contains q) :
    ¬ run.Contains q := by
  have hperm := List.perm_cons_erase hr
  have hsymm : ∀ {a b : Run}, (∀ q, a.Contains q → ¬ b.Contains q) →
      ∀ q, b.Contains q → ¬ a.Contains q := fun h q hb ha => h q ha hb
  have h' := (hperm.pairwise_iff hsymm).mp h
  exact fun hc => (List.pairwise_cons.mp h').1 t ht q hc hq

theorem total_erase {l : List Run} (hr : run ∈ l) :
    run.len + Runs.total (l.erase run) = Runs.total l := by
  rw [← Runs.total_cons]
  exact ((List.perm_cons_erase hr).map _).sum_eq.symm

/-- Giving allocated pages back. -/
theorem free (hs : PageSysInv s rs) (hrun : run ∈ s.held) :
    ∃ s', (PageCall.free run).exec s = some (0, s') ∧ PageSysInv s' (Runs.put run rs) := by
  obtain ⟨hlen, hlo, hhi⟩ := hs.held run hrun
  obtain ⟨h', heq, i', hsame, -⟩ := hs.inv.free hlen hlo hhi (hs.notFree run hrun)
  refine ⟨_, by rw [PageCall.exec, heq, Option.map_some], i', ?_, ?_, ?_, ?_⟩
  · exact hs.apart.sublist List.erase_sublist
  · intro t ht q hq hc
    rcases Runs.covers_put.mp hc with hc | hc
    · exact hs.notFree t (List.mem_of_mem_erase ht) q hq hc
    · exact apart_erase hs.apart hrun ht hq hc
  · intro t ht
    rw [hsame.heapStart, hsame.heapEnd]
    exact hs.held t (List.mem_of_mem_erase ht)
  · have h₁ := hs.total
    have h₂ := total_erase hrun
    rw [hsame.heapStart, hsame.heapEnd, Runs.total_put]
    dsimp only
    omega

/-- A call that is allowed returns and keeps the invariant. -/
theorem exec (hs : PageSysInv s rs) {c : PageCall} (hc : c.Allowed s) :
    ∃ r s' rs', c.exec s = some (r, s') ∧ PageSysInv s' rs' := by
  cases c with
  | alloc npages =>
      by_cases hz : npages = 0
      · refine ⟨0, s, rs, ?_, hs⟩
        rw [PageCall.exec, rtPageAlloc, if_pos hz, Option.map_some, if_pos rfl]
      · obtain ⟨b, s', heq, hs', -⟩ := hs.alloc (Nat.pos_of_ne_zero hz)
        exact ⟨b, s', _, heq, hs'⟩
  | free run =>
      obtain ⟨s', heq, hs'⟩ := hs.free hc
      exact ⟨0, s', _, heq, hs'⟩
  | store a v =>
      obtain ⟨r, hr, hra⟩ := hc
      refine ⟨0, _, rs, rfl, hs.inv.store fun c hcov => if_neg fun he => ?_, hs.apart, hs.notFree,
        hs.held, hs.total⟩
      exact hs.notFree r hr (pageOf a) hra (he ▸ hcov)

theorem of_reachable (hr : Trans.Reachable PageInit PageStep s) : ∃ rs, PageSysInv s rs := by
  refine hr.invariant (I := fun s => ∃ rs, PageSysInv s rs) (fun s hs => init hs) ?_
  rintro s c s' - ⟨rs, hs⟩ ⟨hc, r, heq⟩
  obtain ⟨r', s'', rs', heq', hs'⟩ := hs.exec hc
  rw [heq] at heq'
  cases heq'
  exact ⟨rs', hs'⟩

end PageSysInv

/-- What holds of the free runs `rs` of a state. -/
structure PagesSound (s : PageSys) (rs : List Run) : Prop where
  /-- `rt_page_list` links exactly these runs. -/
  list : Rep s.heap.mem s.heap.pageList rs
  len_pos : ∀ r ∈ rs, 0 < r.len
  /-- Addresses increase, and a run ends below the one behind it, which it does not touch. -/
  separated : rs.Pairwise fun r t => r.stop < t.start
  held_apart : s.held.Pairwise fun r t => ∀ q, r.Contains q → ¬ t.Contains q
  held_notFree : ∀ r ∈ s.held, ∀ q, r.Contains q → ¬ Covers rs q
  total : Runs.total rs + Runs.total s.held =
    (s.heap.heapEnd - s.heap.heapStart) / RT_MM_PAGE_SIZE
  /-- An allocation returns, and fails exactly when no run is long enough. -/
  alloc : ∀ npages, 1 ≤ npages → ∃ b s', (PageCall.alloc npages).exec s = some (b, s') ∧
    (b = 0 ↔ ∀ r ∈ rs, r.len < npages)
  /-- Every allowed call returns. -/
  returns : ∀ c : PageCall, c.Allowed s → ∃ r s', c.exec s = some (r, s')

/-- **The page allocator** in every state of every run. -/
theorem page_allocator_sound {s : PageSys} (hr : Trans.Reachable PageInit PageStep s) :
    ∃ rs, PagesSound s rs := by
  obtain ⟨rs, hs⟩ := PageSysInv.of_reachable hr
  refine ⟨rs, hs.inv.rep, fun r hr => (hs.inv.sep.start_ge hr).2, hs.inv.sep.pairwise, hs.apart,
    hs.notFree, hs.total, fun npages hpos => ?_, fun c hc => ?_⟩
  · obtain ⟨b, s', heq, -, hiff⟩ := hs.alloc hpos
    exact ⟨b, s', heq, hiff⟩
  · obtain ⟨r, s', -, heq, -⟩ := hs.exec hc
    exact ⟨r, s', heq⟩

/-- A region of eight pages. -/
def eightPages : PageSys :=
  ⟨(pagesInit (fun _ => 0) 4000 36900).getD ⟨fun _ => 0, 0, 0, 0, 0⟩, []⟩

theorem eightPages_init : PageInit eightPages := by
  have hsome : (pagesInit (fun _ => 0) 4000 36900).isSome = true := by decide +kernel
  obtain ⟨h, hh⟩ := Option.isSome_iff_exists.mp hsome
  refine ⟨⟨fun _ => 0, 4000, 36900, ?_⟩, rfl⟩
  unfold eightPages
  rw [hh, Option.getD_some]

/-- Three runs are allocated, and the first and the last are given back. -/
theorem page_allocator_sound_freed : ∃ s : PageSys, s.held = [⟨3, 3⟩] ∧ s.heap.pageList = 4096 ∧
    ∃ rs, PagesSound s rs := by
  have hrun : (Trans.runList (Trans.stepIf (fun s (c : PageCall) => (c.exec s).map (·.2))
      fun s c => c.Allowed s) eightPages
        [.alloc 2, .alloc 3, .alloc 1, .store 4100 7, .free ⟨1, 2⟩, .free ⟨6, 1⟩]).map
          (fun s => decide (s.held = [⟨3, 3⟩] ∧ s.heap.pageList = 4096)) = some true := by
    decide +kernel
  obtain ⟨s, hs, hall⟩ := Option.map_eq_some_iff.mp hrun
  obtain ⟨h₁, h₂⟩ := of_decide_eq_true hall
  refine ⟨s, h₁, h₂, page_allocator_sound ?_⟩
  refine (Trans.reachable_of_runList_stepIf eightPages_init hs).mono fun s c s' hc => ⟨hc.2, ?_⟩
  obtain ⟨⟨r, t⟩, ht, rfl⟩ := Option.map_eq_some_iff.mp hc.1
  exact ⟨r, ht⟩

end RTThread.Slab
