import RTThread.Lib.Runs
import RTThread.Slab.Pages

set_option autoImplicit false

/-! # The page list is a list of runs

`Rep m b rs` says that the list of pages that starts at `b` consists of the runs `rs`. The loop of
`rt_page_alloc` takes pages from the runs and that of `rt_page_free` puts a run back, and both store
only to free pages, the pages given back, and the place `prev` points to.
-/

namespace RTThread.Slab

open Runs (Run Covers SepFrom)

variable {m m' : Mem} {h h' : PageHeap} {rs : List Run} {r run : Run} {prev : Prev}
  {a b n p lo npages fuel v : Nat} {f g : PageField}

/-! ## Page heads -/

/-- The address of the page `p`. -/
def pageAddr (p : Nat) : Nat := p * RT_MM_PAGE_SIZE

/-- The page of an address. -/
def pageOf (a : Nat) : Nat := a / RT_MM_PAGE_SIZE

theorem PageField.off_injective : Function.Injective PageField.off := by
  intro f g h
  cases f <;> cases g <;> first | rfl | (simp [PageField.off] at h)

theorem PageField.off_lt (f : PageField) : f.off < RT_MM_PAGE_SIZE := by
  cases f <;> decide

theorem pageOf_field (p : Nat) (f : PageField) : pageOf (pageAddr p + f.off) = p := by
  have h₁ := f.off_lt
  unfold pageOf pageAddr RT_MM_PAGE_SIZE at *
  omega

theorem pageOf_pageAddr (p : Nat) : pageOf (pageAddr p) = p := by
  unfold pageOf pageAddr RT_MM_PAGE_SIZE
  omega

theorem pageAddr_inj {q : Nat} (h : pageAddr p = pageAddr q) : p = q := by
  unfold pageAddr RT_MM_PAGE_SIZE at h
  omega

theorem pageAddr_ne_zero : pageAddr p ≠ 0 ↔ p ≠ 0 := by
  unfold pageAddr RT_MM_PAGE_SIZE
  omega

theorem head_setHead {q : Nat} : (m.setHead f (pageAddr p) v).head g (pageAddr q) =
    if g = f ∧ q = p then v else m.head g (pageAddr q) := by
  have hor : pageAddr p = pageAddr q ∨ Fields.Apart RT_MM_PAGE_SIZE (pageAddr p) (pageAddr q) := by
    unfold Fields.Apart pageAddr RT_MM_PAGE_SIZE
    omega
  have h₁ := Fields.get_set (m := m) (f := f) (g := g) (v := v) PageField.off_injective
    PageField.off_lt hor
  have h₂ : pageAddr q = pageAddr p ↔ q = p := ⟨pageAddr_inj, fun e => e ▸ rfl⟩
  simp only [h₂] at h₁
  exact h₁

/-- The runs of the list that starts at `b`. -/
def Rep (m : Mem) : Nat → List Run → Prop
  | b, [] => b = 0
  | b, r :: rs => b = pageAddr r.start ∧ b ≠ 0 ∧ m.head .page b = r.len ∧ Rep m (m.head .next b) rs

/-- The list is read at the first page of each run only. -/
theorem Rep.congr (hr : Rep m b rs)
    (hm : ∀ r ∈ rs, ∀ f, m'.head f (pageAddr r.start) = m.head f (pageAddr r.start)) :
    Rep m' b rs := by
  induction rs generalizing b with
  | nil => exact hr
  | cons r rs ih =>
      obtain ⟨hb, hne, hpage, hrest⟩ := hr
      subst hb
      have h₁ := hm r List.mem_cons_self
      refine ⟨rfl, hne, (h₁ .page).trans hpage, ?_⟩
      rw [h₁ .next]
      exact ih hrest fun s hs => hm s (List.mem_cons_of_mem _ hs)

/-- A store to a page that is not covered. -/
theorem Rep.congr_of_covers (hr : Rep m b rs) (hsep : SepFrom lo rs)
    (hm : ∀ a, Covers rs (pageOf a) → m' a = m a) : Rep m' b rs := by
  refine hr.congr fun s hs f => hm _ ?_
  rw [pageOf_field]
  have h₁ := (hsep.start_ge hs).2
  exact ⟨s, hs, le_refl _, by unfold Run.stop; omega⟩

/-! ## What a walk changes -/

/-- Only pages of `P`, and the place `prev` points to, were stored to. -/
structure Frame (h h' : PageHeap) (prev : Prev) (P : Nat → Prop) : Prop where
  mem : ∀ a, ¬ P (pageOf a) → prev ≠ .next a → h'.mem a = h.mem a
  pageList : prev ≠ .list → h'.pageList = h.pageList
  heapSem : h'.heapSem = h.heapSem
  heapStart : h'.heapStart = h.heapStart
  heapEnd : h'.heapEnd = h.heapEnd

/-- `prev` does not lie in the pages from `lo` on. -/
def Prev.Below (lo : Nat) : Prev → Prop
  | .list => True
  | .next b => ∃ p, b = pageAddr p ∧ p < lo

/-- The store through `prev`. -/
theorem deref_assign (h : PageHeap) (prev : Prev) (v : Nat) : (h.assign prev v).deref prev = v := by
  cases prev with
  | list => rfl
  | next b =>
      unfold PageHeap.assign PageHeap.deref
      simp [Fields.get, Fields.set]

theorem mem_assign (h : PageHeap) (v : Nat) (ha : prev ≠ .next a) :
    (h.assign prev v).mem a = h.mem a := by
  cases prev with
  | list => rfl
  | next b =>
      refine Fields.set_of_ne fun he => ha ?_
      rw [he]
      rfl

theorem Prev.Below.ne_next (hp : prev.Below lo) (ha : lo ≤ pageOf a) : prev ≠ .next a := by
  rintro rfl
  obtain ⟨q, rfl, hq⟩ := hp
  rw [pageOf_pageAddr] at ha
  omega

/-- The heads at pages from `lo` on are not what `prev` points to. -/
theorem head_assign (h : PageHeap) (v : Nat) (hp : prev.Below lo) (hlo : lo ≤ p) :
    (h.assign prev v).mem.head f (pageAddr p) = h.mem.head f (pageAddr p) :=
  mem_assign h v (hp.ne_next (by rw [pageOf_field]; exact hlo))

theorem deref_setHead (hp : prev.Below lo) (hlo : lo ≤ p) :
    (h.setHead f (pageAddr p) v).deref prev = h.deref prev := by
  cases prev with
  | list => rfl
  | next b =>
      obtain ⟨q, rfl, hq⟩ := hp
      change (h.mem.setHead f (pageAddr p) v).head .next (pageAddr q) = _
      rw [head_setHead, if_neg (by omega)]
      rfl

theorem mem_setHead (ha : pageOf a ≠ p) : (h.setHead f (pageAddr p) v).mem a = h.mem a := by
  refine Fields.set_of_ne fun he => ha ?_
  rw [he, pageOf_field]

/-- A walk that goes on behind the run `r` changes neither what led to `r` nor its length. -/
theorem Rep.cons_of_tail (hb : h.deref prev = pageAddr r.start) (hne : pageAddr r.start ≠ 0)
    (hpage : h.mem.head .page (pageAddr r.start) = r.len) (hp : prev.Below lo) (hlo : lo ≤ r.start)
    {P : Nat → Prop} (hP : ∀ q, P q → r.start < q) {rs' : List Run}
    (fr : Frame h h' (.next (pageAddr r.start)) P)
    (hrep : Rep h'.mem (h'.deref (.next (pageAddr r.start))) rs') :
    Rep h'.mem (h'.deref prev) (r :: rs') ∧
      ∀ {Q : Nat → Prop}, (∀ q, P q → Q q) → Q r.start → Frame h h' prev Q := by
  have hderef : h'.deref prev = h.deref prev := by
    cases prev with
    | list => exact fr.pageList (by simp)
    | next b =>
        obtain ⟨q, rfl, hq⟩ := hp
        refine fr.mem _ (fun hc => ?_) fun he => ?_
        · have h₁ := hP _ hc
          rw [pageOf_field] at h₁
          omega
        · have h₁ : pageAddr r.start = pageAddr q + PageField.next.off := Prev.next.inj he
          have h₂ := pageAddr_inj (h₁.trans (Nat.add_zero _))
          omega
  have hlen : h'.mem.head .page (pageAddr r.start) = r.len := by
    refine (fr.mem _ (fun hc => ?_) fun he => ?_).trans hpage
    · have h₁ := hP _ hc
      rw [pageOf_field] at h₁
      omega
    · have h₁ : pageAddr r.start = pageAddr r.start + PageField.page.off := Prev.next.inj he
      have h₂ : PageField.page.off = 4 := rfl
      omega
  refine ⟨?_, fun hPQ hQ => ⟨fun a ha _ => fr.mem a (fun hc => ha (hPQ _ hc)) ?_, fun _ => ?_,
    fr.heapSem, fr.heapStart, fr.heapEnd⟩⟩
  · rw [hderef, hb]
    exact ⟨rfl, hne, hlen, hrep⟩
  · intro he
    have h₁ : pageAddr r.start = a := Prev.next.inj he
    rw [← h₁, pageOf_pageAddr] at ha
    exact ha hQ
  · exact fr.pageList (by simp)

theorem Frame.mono {P Q : Nat → Prop} (fr : Frame h h' prev P) (hPQ : ∀ q, P q → Q q) :
    Frame h h' prev Q :=
  ⟨fun a ha => fr.mem a fun hc => ha (hPQ _ hc), fr.pageList, fr.heapSem, fr.heapStart, fr.heapEnd⟩

/-- `prev` now points to the head at page `x`, with the two fields given. -/
structure Linked (h h' : PageHeap) (prev : Prev) (x next len : Nat) : Prop where
  deref : h'.deref prev = pageAddr x
  next : h'.mem.head .next (pageAddr x) = next
  page : h'.mem.head .page (pageAddr x) = len
  frame : Frame h h' prev (· = x)

theorem assign_static (h : PageHeap) (prev : Prev) (v : Nat) :
    (prev ≠ .list → (h.assign prev v).pageList = h.pageList) ∧
      (h.assign prev v).heapSem = h.heapSem ∧ (h.assign prev v).heapStart = h.heapStart ∧
      (h.assign prev v).heapEnd = h.heapEnd := by
  cases prev with
  | list => exact ⟨fun hc => absurd rfl hc, rfl, rfl, rfl⟩
  | next b => exact ⟨fun _ => rfl, rfl, rfl, rfl⟩

/-- The three stores that insert a head, in either order of the fields. -/
theorem linked_set {x w : Nat} (hp : prev.Below lo) (hlo : lo ≤ x) (hfg : f ≠ g) :
    Linked h (((h.setHead f (pageAddr x) v).setHead g (pageAddr x) w).assign prev (pageAddr x)) prev x
      (if f = .next then v else w) (if f = .page then v else w) := by
  obtain ⟨h₁, h₂, h₃, h₄⟩ :=
    assign_static ((h.setHead f (pageAddr x) v).setHead g (pageAddr x) w) prev (pageAddr x)
  have hread : ∀ e, (((h.setHead f (pageAddr x) v).setHead g (pageAddr x) w).assign prev
      (pageAddr x)).mem.head e (pageAddr x) = if e = f then v else w := by
    intro e
    rw [head_assign _ _ hp hlo]
    change ((h.mem.setHead f (pageAddr x) v).setHead g (pageAddr x) w).head e (pageAddr x) = _
    rw [head_setHead, head_setHead]
    cases e <;> cases f <;> cases g <;> simp_all
  refine ⟨deref_assign _ _ _, (hread .next).trans ?_, (hread .page).trans ?_,
    ⟨fun a ha hne => ?_, h₁, h₂, h₃, h₄⟩⟩
  · simp only [eq_comm]
  · simp only [eq_comm]
  · rw [mem_assign _ _ hne, mem_setHead ha, mem_setHead ha]

/-- A head in front of a list. -/
theorem Linked.rep {x nx len : Nat} (lk : Linked h h' prev x nx len) (hx : pageAddr x ≠ 0)
    (hrs : Rep h.mem nx rs) (hsep : SepFrom (x + 1) rs) (hp : prev.Below lo) (hlo : lo ≤ x) :
    Rep h'.mem (h'.deref prev) (⟨x, len⟩ :: rs) := by
  rw [lk.deref]
  refine ⟨rfl, hx, lk.page, ?_⟩
  rw [lk.next]
  refine hrs.congr_of_covers hsep fun a ha => lk.frame.mem a (fun he => ?_) ?_
  · have h₁ := hsep.le_of_covers ha
    omega
  · have h₁ := hsep.le_of_covers ha
    exact hp.ne_next (by omega)

/-- `*prev = b->next`. -/
theorem rep_assign {nx : Nat} (hrs : Rep h.mem nx rs) (hsep : SepFrom lo rs) (hp : prev.Below lo) :
    Rep (h.assign prev nx).mem ((h.assign prev nx).deref prev) rs := by
  rw [deref_assign]
  refine hrs.congr_of_covers hsep fun a ha => mem_assign _ _ ?_
  exact hp.ne_next (hsep.le_of_covers ha)

theorem frame_assign {P : Nat → Prop} (h : PageHeap) (prev : Prev) (v : Nat) :
    Frame h (h.assign prev v) prev P := by
  obtain ⟨h₁, h₂, h₃, h₄⟩ := assign_static h prev v
  exact ⟨fun a _ hne => mem_assign _ _ hne, h₁, h₂, h₃, h₄⟩

/-! ## The loops -/

/-- The address of what `take` found. -/
def found : Option Nat → Nat
  | none => 0
  | some p => pageAddr p

/-- **The loop of `rt_page_alloc`** takes pages from the runs. -/
theorem pageAllocLoop_spec (hpos : 0 < npages) (hrep : Rep h.mem (h.deref prev) rs)
    (hsep : SepFrom lo rs) (hprev : prev.Below lo) (hfuel : rs.length < fuel) :
    ∃ h', pageAllocLoop npages fuel prev h = some (found (Runs.take npages rs).1, h') ∧
      Rep h'.mem (h'.deref prev) (Runs.take npages rs).2 ∧ Frame h h' prev (Covers rs) := by
  induction rs generalizing lo prev fuel with
  | nil =>
      obtain ⟨fuel, rfl⟩ : ∃ k, fuel = k + 1 := ⟨fuel - 1, by omega⟩
      have hz : h.deref prev = 0 := hrep
      refine ⟨h, ?_, hrep, ⟨fun _ _ _ => rfl, fun _ => rfl, rfl, rfl, rfl⟩⟩
      rw [pageAllocLoop, if_pos hz]
      rfl
  | cons r rs ih =>
      obtain ⟨fuel, rfl⟩ : ∃ k, fuel = k + 1 := ⟨fuel - 1, by omega⟩
      obtain ⟨hb, hne, hpage, hrest⟩ := hrep
      obtain ⟨hle, hrpos, hsep'⟩ := hsep
      rw [hb] at hne hpage hrest
      have hcov : Covers (r :: rs) r.start :=
        ⟨r, List.mem_cons_self, le_refl _, by unfold Run.stop; omega⟩
      rw [pageAllocLoop, Runs.take]
      dsimp only
      rw [hb, if_neg hne, hpage]
      split_ifs with h₁ h₂
      · -- the run is split
        obtain ⟨x, hx⟩ : ∃ x, x = r.start + npages := ⟨_, rfl⟩
        have hxaddr : pageAddr r.start + npages * RT_MM_PAGE_SIZE = pageAddr x := by
          rw [hx, pageAddr, pageAddr, Nat.add_mul]
        have hread : (h.setHead .next (pageAddr x) (h.mem.head .next (pageAddr r.start))).mem.head .page
            (pageAddr r.start) = r.len := by
          change (h.mem.setHead .next (pageAddr x) _).head .page (pageAddr r.start) = _
          rw [head_setHead, if_neg (by simp)]
          exact hpage
        rw [hxaddr, hread, ← hx]
        have lk := linked_set (h := h) (f := .next) (g := .page) (x := x) (w := r.len - npages)
          (v := h.mem.head .next (pageAddr r.start)) hprev (by omega) (by simp)
        rw [if_pos rfl, if_neg (by simp)] at lk
        dsimp only [found]
        refine ⟨_, rfl, lk.rep ?_ hrest (hsep'.mono ?_) hprev (by omega), lk.frame.mono ?_⟩
        · rw [pageAddr_ne_zero] at hne ⊢
          omega
        · unfold Run.stop
          omega
        · rintro q rfl
          refine ⟨r, List.mem_cons_self, ?_, ?_⟩
          · omega
          · unfold Run.stop
            omega
      · -- the whole run is taken
        have hlo : lo ≤ r.stop + 1 := by
          unfold Run.stop
          omega
        dsimp only [found]
        refine ⟨_, rfl, ?_, frame_assign _ _ _⟩
        have hprev' : prev.Below (r.stop + 1) := by
          cases prev with
          | list => trivial
          | next b =>
              obtain ⟨q, hq, hlt⟩ := hprev
              exact ⟨q, hq, by omega⟩
        exact rep_assign hrest hsep' hprev'
      · -- the walk goes on
        have hprev' : (Prev.next (pageAddr r.start)).Below (r.stop + 1) :=
          ⟨r.start, rfl, by unfold Run.stop; omega⟩
        obtain ⟨h', hloop, hrep', fr⟩ := ih
          (show Rep h.mem (h.deref (.next (pageAddr r.start))) rs from hrest) hsep' hprev'
          (by simpa using hfuel)
        obtain ⟨hrep'', hfr⟩ := Rep.cons_of_tail hb hne hpage hprev hle (fun q hq => by
          have h₃ := hsep'.le_of_covers hq
          unfold Run.stop at h₃
          omega) fr hrep'
        exact ⟨h', hloop, hrep'', hfr (fun q hq => Runs.covers_cons.mpr (Or.inr hq)) hcov⟩

/-- The statements behind the loop of `rt_page_free`. -/
theorem pageInsert_spec (hrun : pageAddr run.start ≠ 0) (hrep : Rep h.mem (h.deref prev) rs)
    (hsep : SepFrom (run.start + 1) rs) (hprev : prev.Below lo) (hlo : lo ≤ run.start) :
    Rep (pageInsert (pageAddr run.start) run.len prev (h.deref prev) h).mem
        ((pageInsert (pageAddr run.start) run.len prev (h.deref prev) h).deref prev) (run :: rs) ∧
      Frame h (pageInsert (pageAddr run.start) run.len prev (h.deref prev) h) prev
        (· = run.start) := by
  have lk := linked_set (h := h) (f := .page) (g := .next) (x := run.start) (v := run.len)
    (w := h.deref prev) hprev hlo (by simp)
  rw [if_neg (by simp), if_pos rfl] at lk
  exact ⟨lk.rep hrun hrep hsep hprev hlo, lk.frame⟩

theorem frame_setHead {x : Nat} : Frame h (h.setHead f (pageAddr x) v) prev (· = x) :=
  ⟨fun _ ha _ => mem_setHead ha, fun _ => rfl, rfl, rfl, rfl⟩

theorem Frame.trans {h'' : PageHeap} {P : Nat → Prop} (fr : Frame h h' prev P)
    (fr' : Frame h' h'' prev P) : Frame h h'' prev P :=
  ⟨fun a ha hne => (fr'.mem a ha hne).trans (fr.mem a ha hne),
    fun hne => (fr'.pageList hne).trans (fr.pageList hne), fr'.heapSem.trans fr.heapSem,
    fr'.heapStart.trans fr.heapStart, fr'.heapEnd.trans fr.heapEnd⟩

theorem setHead_head {x y : Nat} : (h.setHead f (pageAddr x) v).mem.head g (pageAddr y) =
    if g = f ∧ y = x then v else h.mem.head g (pageAddr y) := head_setHead

/-- The statements of `rt_page_free` that give the run at `b` more pages, `len` in all, and take in the
next run if it then touches. -/
def pageJoin (b len : Nat) (h : PageHeap) : PageHeap :=
  let h := h.setHead .page b len
  let c := h.mem.head .next b
  if b + h.mem.head .page b * RT_MM_PAGE_SIZE = c then
    let h := h.setHead .page b (h.mem.head .page b + h.mem.head .page c)
    h.setHead .next b (h.mem.head .next c)
  else h

theorem pageJoin_spec (len : Nat) (hb : h.deref prev = pageAddr b) (hne : pageAddr b ≠ 0)
    (hrest : Rep h.mem (h.mem.head .next (pageAddr b)) rs) (hsep : SepFrom (b + 1) rs)
    (hprev : prev.Below lo) (hlo : lo ≤ b) :
    Rep (pageJoin (pageAddr b) len h).mem ((pageJoin (pageAddr b) len h).deref prev)
        (Runs.join ⟨b, len⟩ rs) ∧
      Frame h (pageJoin (pageAddr b) len h) prev (· = b) := by
  have lk₁ : Linked h (h.setHead .page (pageAddr b) len) prev b (h.mem.head .next (pageAddr b)) len :=
    ⟨(deref_setHead hprev hlo).trans hb, by rw [setHead_head, if_neg (by simp)],
      by rw [setHead_head, if_pos ⟨rfl, rfl⟩], frame_setHead⟩
  unfold pageJoin
  dsimp only
  rw [lk₁.next, lk₁.page]
  have hsum : pageAddr b + len * RT_MM_PAGE_SIZE = pageAddr (b + len) := by
    rw [pageAddr, pageAddr, Nat.add_mul]
  rw [hsum]
  cases rs with
  | nil =>
      have hz : h.mem.head .next (pageAddr b) = 0 := hrest
      have hpos : pageAddr (b + len) ≠ 0 := by
        rw [pageAddr_ne_zero] at hne ⊢
        omega
      rw [hz, if_neg hpos]
      exact ⟨lk₁.rep hne hrest hsep hprev hlo, lk₁.frame⟩
  | cons s rs =>
      obtain ⟨hc, hcne, hcpage, hcrest⟩ := id hrest
      have hsb : s.start ≠ b := by
        have h₁ := hsep.1
        omega
      rw [hc] at hcpage hcrest ⊢
      have hiff : pageAddr (b + len) = pageAddr s.start ↔ (⟨b, len⟩ : Run).stop = s.start :=
        ⟨fun he => pageAddr_inj he, fun he => congrArg pageAddr he⟩
      rw [Runs.join]
      by_cases ht : (⟨b, len⟩ : Run).stop = s.start
      · rw [if_pos (hiff.mpr ht), if_pos ht]
        -- the head of the next run is read before it is forgotten
        have hread : ∀ e, (h.setHead .page (pageAddr b) len).mem.head e (pageAddr s.start) =
            h.mem.head e (pageAddr s.start) := fun e => by
          rw [setHead_head, if_neg fun hc => hsb hc.2]
        rw [hread .page, hcpage]
        have hread' : ((h.setHead .page (pageAddr b) len).setHead .page (pageAddr b)
            (len + s.len)).mem.head .next (pageAddr s.start) =
              h.mem.head .next (pageAddr s.start) := by
          rw [setHead_head, if_neg (by simp), hread]
        rw [hread']
        have lk : Linked h (((h.setHead .page (pageAddr b) len).setHead .page (pageAddr b)
            (len + s.len)).setHead .next (pageAddr b) (h.mem.head .next (pageAddr s.start))) prev b
              (h.mem.head .next (pageAddr s.start)) (len + s.len) := by
          refine ⟨?_, ?_, ?_, (frame_setHead.trans frame_setHead).trans frame_setHead⟩
          · rw [deref_setHead hprev hlo, deref_setHead hprev hlo, deref_setHead hprev hlo, hb]
          · rw [setHead_head, if_pos ⟨rfl, rfl⟩]
          · rw [setHead_head, if_neg (by simp), setHead_head, if_pos ⟨rfl, rfl⟩]
        refine ⟨lk.rep hne hcrest (hsep.2.2.mono ?_) hprev hlo, lk.frame⟩
        have h₁ := hsep.1
        unfold Run.stop
        omega
      · rw [if_neg fun he => ht (hiff.mp he), if_neg ht]
        exact ⟨lk₁.rep hne hrest hsep hprev hlo, lk₁.frame⟩

/-- **The loop of `rt_page_free`** puts a run back. -/
theorem pageFreeLoop_spec (hrun : pageAddr run.start ≠ 0) (hlen : 0 < run.len)
    (hrep : Rep h.mem (h.deref prev) rs) (hsep : SepFrom lo rs) (hprev : prev.Below lo)
    (hlo : lo ≤ run.start) (hnew : ∀ q, run.Contains q → ¬ Covers rs q)
    (hfuel : rs.length < fuel) :
    ∃ h', pageFreeLoop (pageAddr run.start) run.len fuel prev h = some h' ∧
      Rep h'.mem (h'.deref prev) (Runs.put run rs) ∧
      Frame h h' prev (fun q => Covers rs q ∨ run.Contains q) := by
  have hself : run.Contains run.start := ⟨le_refl _, by unfold Run.stop; omega⟩
  induction rs generalizing lo prev fuel with
  | nil =>
      obtain ⟨fuel, rfl⟩ : ∃ k, fuel = k + 1 := ⟨fuel - 1, by omega⟩
      have hz : h.deref prev = 0 := hrep
      obtain ⟨hrep', fr⟩ := pageInsert_spec hrun hrep (show SepFrom (run.start + 1) [] from trivial)
        hprev hlo
      refine ⟨_, ?_, hrep', fr.mono fun q hq => Or.inr (hq ▸ hself)⟩
      rw [pageFreeLoop, if_pos hz]
  | cons r rs ih =>
      obtain ⟨fuel, rfl⟩ : ∃ k, fuel = k + 1 := ⟨fuel - 1, by omega⟩
      obtain ⟨hb, hne, hpage, hrest⟩ := id hrep
      obtain ⟨hle, hrpos, hsep'⟩ := id hsep
      rw [hb] at hne hpage hrest
      have hcov : Covers (r :: rs) r.start :=
        ⟨r, List.mem_cons_self, le_refl _, by unfold Run.stop; omega⟩
      have hsepb : SepFrom (r.start + 1) rs := hsep'.mono (by unfold Run.stop; omega)
      -- the new run does not overlap the one looked at
      have hdisj : run.stop ≤ r.start ∨ r.stop ≤ run.start := by
        by_contra hover
        rw [not_or, not_le, not_le] at hover
        rcases Nat.le_total run.start r.start with hc | hc
        · exact hnew r.start ⟨hc, hover.1⟩ hcov
        · exact hnew run.start hself (Runs.covers_cons.mpr (Or.inl ⟨hc, hover.2⟩))
      have hstop : ∀ x k, pageAddr x + k * RT_MM_PAGE_SIZE = pageAddr (x + k) := fun x k => by
        rw [pageAddr, pageAddr, Nat.add_mul]
      have haddr_lt : ∀ x y, pageAddr x > pageAddr y ↔ x > y := fun x y => by
        unfold pageAddr RT_MM_PAGE_SIZE
        omega
      have haddr_le : ∀ x y, pageAddr x ≤ pageAddr y ↔ x ≤ y := fun x y => by
        unfold pageAddr RT_MM_PAGE_SIZE
        omega
      have haddr_eq : ∀ x y, pageAddr x = pageAddr y ↔ x = y := fun x y =>
        ⟨pageAddr_inj, congrArg pageAddr⟩
      have hassert : r.len > 0 ∧ (pageAddr r.start > pageAddr run.start ∨
          pageAddr r.start + r.len * RT_MM_PAGE_SIZE ≤ pageAddr run.start) := by
        rw [hstop, haddr_lt, haddr_le]
        unfold Run.stop at hdisj
        omega
      rw [pageFreeLoop, Runs.put]
      dsimp only
      rw [hb, if_neg hne, hpage, if_pos hassert, hstop r.start r.len, hstop run.start run.len]
      simp only [haddr_eq r.start (run.start + run.len), haddr_eq (r.start + r.len) run.start,
        haddr_lt r.start (run.start + run.len)]
      by_cases h₁ : r.stop = run.start
      · rw [if_pos h₁, if_pos (show r.start + r.len = run.start from h₁)]
        obtain ⟨hrep', fr⟩ := pageJoin_spec (r.len + run.len) hb hne hrest hsepb hprev hle
        refine ⟨_, ?_, hrep', fr.mono fun q hq => Or.inl (hq ▸ hcov)⟩
        unfold pageJoin
        dsimp only
        split_ifs <;> rfl
      rw [if_neg h₁, if_neg (show ¬ r.start + r.len = run.start from h₁)]
      by_cases h₂ : r.start = run.stop
      · rw [if_pos h₂, if_pos (show r.start = run.start + run.len from h₂)]
        have hread : (h.setHead .page (pageAddr run.start) (r.len + run.len)).mem.head .next
            (pageAddr r.start) = h.mem.head .next (pageAddr r.start) := by
          rw [setHead_head, if_neg (by simp)]
        have lk := linked_set (h := h) (f := .page) (g := .next) (x := run.start)
          (v := r.len + run.len) (w := h.mem.head .next (pageAddr r.start)) hprev hlo (by simp)
        rw [if_neg (by simp), if_pos rfl] at lk
        rw [hread]
        refine ⟨_, rfl, lk.rep hrun hrest (hsepb.mono ?_) hprev hlo,
          lk.frame.mono fun q hq => Or.inr (hq ▸ hself)⟩
        unfold Run.stop at h₂
        omega
      rw [if_neg h₂, if_neg (show ¬ r.start = run.start + run.len from h₂)]
      by_cases h₃ : r.start > run.stop
      · rw [if_pos h₃, if_pos (show r.start > run.start + run.len from h₃)]
        have hins := pageInsert_spec hrun hrep (hsep.raise ?_) hprev hlo
        · rw [hb] at hins
          exact ⟨_, rfl, hins.1, hins.2.mono fun q hq => Or.inr (hq ▸ hself)⟩
        · unfold Run.stop at h₃
          omega
      · rw [if_neg h₃, if_neg (show ¬ r.start > run.start + run.len from h₃)]
        -- the walk goes on
        have hprev' : (Prev.next (pageAddr r.start)).Below (r.stop + 1) :=
          ⟨r.start, rfl, by unfold Run.stop; omega⟩
        have hnew' : ∀ q, run.Contains q → ¬ Covers rs q := fun q hq hc =>
          hnew q hq (Runs.covers_cons.mpr (Or.inr hc))
        have hlo' : r.stop + 1 ≤ run.start := by
          unfold Run.stop at *
          omega
        obtain ⟨h', hloop, hrep', fr⟩ := ih
          (show Rep h.mem (h.deref (.next (pageAddr r.start))) rs from hrest) hsep' hprev' hlo' hnew'
          (by simpa using hfuel)
        obtain ⟨hrep'', hfr⟩ := Rep.cons_of_tail hb hne hpage hprev hle (fun q hq => by
          rcases hq with hq | hq
          · have h₄ := hsep'.le_of_covers hq
            unfold Run.stop at h₄
            omega
          · have h₄ := hq.1
            unfold Run.stop at hlo'
            omega) fr hrep'
        refine ⟨h', hloop, hrep'', hfr (fun q hq => ?_) (Or.inl hcov)⟩
        exact hq.imp_left fun hc => Runs.covers_cons.mpr (Or.inr hc)

end RTThread.Slab
