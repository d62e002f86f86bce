import RTThread.Drivers.Ringblk
import RTThread.Lib.RingBlocks
import RTThread.Lib.Run

set_option autoImplicit false

/-! # The blocks of `blk_list` go round the buffer

The blocks of `blk_list` are ringed (`Runs.Ringed`), whatever was freed or taken off the list before:
`rt_rbb_blk_alloc` reads the first and the last of them, and this is enough to tell where there is
room. There is one exception: while the list is empty, the size of the block is not compared with the
size of the buffer. After such a block the free space comes out near `2 ^ 32`, the blocks leave the
buffer, and when their addresses have gone once round all the memory, one comes to lie over another.
-/

namespace RTThread.Drivers

open Memheap (u32 sub32)
open Runs (Run Ringed Wound descents)

variable {rbb rbb' : Rbb} {i j n new : Nat} {b : RbbBlk}

/-- The bytes of a block. -/
def Rbb.run (rbb : Rbb) (i : Nat) : Run := ⟨(rbb.blk i).buf, (rbb.blk i).size⟩

theorem Rbb.blk_setBlk (hi : i < rbb.blkSet.length) :
    (rbb.setBlk i b).blk j = if j = i then b else rbb.blk j := by
  unfold Rbb.blk Rbb.setBlk
  rw [List.getD_eq_getElem?_getD, List.getElem?_set, List.getD_eq_getElem?_getD]
  by_cases h : j = i
  · rw [if_pos h.symm, if_pos hi, if_pos h]
    rfl
  · rw [if_neg (Ne.symm h), if_neg h]

/-- A block that is in use is in the array. -/
theorem Rbb.lt_length (h : (rbb.blk i).status ≠ .unused) : i < rbb.blkSet.length := by
  by_contra hge
  apply h
  unfold Rbb.blk
  rw [List.getD_eq_getElem?_getD, List.getElem?_eq_none (Nat.not_lt.mp hge)]
  rfl

theorem findEmptyBlkInSet_some (h : findEmptyBlkInSet rbb = some new) :
    new < rbb.blkMaxNum ∧ (rbb.blk new).status = .unused := by
  refine ⟨List.mem_range.mp (List.mem_of_find?_eq_some h), ?_⟩
  simpa using List.find?_some h

/-- An allocation changes nothing, or links an unused block. -/
theorem rtRbbBlkAlloc_append {ans : Option Nat} (he : rtRbbBlkAlloc rbb n = some (ans, rbb')) :
    rbb' = rbb ∨ ∃ new buf, findEmptyBlkInSet rbb = some new ∧ rbb' = rbb.append new buf n := by
  unfold rtRbbBlkAlloc at he
  split at he
  · cases he
  cases hnew : findEmptyBlkInSet rbb with
  | none =>
      rw [hnew] at he
      exact Or.inl (Prod.mk.inj (Option.some.inj he)).2.symm
  | some new =>
      rw [hnew] at he
      dsimp only at he
      have hsame : ∀ {ans' : Option Nat}, some (ans', rbb) = some (ans, rbb') → rbb' = rbb :=
        fun h => (Prod.mk.inj (Option.some.inj h)).2.symm
      have hput : ∀ {buf : Nat}, some (some new, rbb.append new buf n) = some (ans, rbb') →
          ∃ new' buf, some new = some new' ∧ rbb' = rbb.append new' buf n :=
        fun {buf} h => ⟨new, buf, rfl, (Prod.mk.inj (Option.some.inj h)).2.symm⟩
      by_cases hnum : rbb.blkList.length < rbb.blkMaxNum
      · rw [if_pos hnum] at he
        split at he
        · split_ifs at he
          · exact Or.inr (hput he)
          · exact Or.inr (hput he)
          · exact Or.inl (hsame he)
          · exact Or.inr (hput he)
          · exact Or.inl (hsame he)
        · exact Or.inr (hput he)
      · rw [if_neg hnum] at he
        exact Or.inl (hsame he)

/-- Difference of two addresses. -/
theorem sub32_u32 {x y : Nat} (h : y ≤ x) (hlt : x - y < 4294967296) :
    sub32 (u32 x) (u32 y) = x - y := by
  unfold sub32 u32
  omega

/-! ## Where a block is put -/

/-- The free space in which `rt_rbb_blk_alloc` puts a block of `n` bytes, if it has room for them. -/
def Rbb.gap (rbb : Rbb) (n : Nat) : Nat × Nat :=
  match rbb.blkList.head?, rbb.blkList.getLast? with
  | some h, some t =>
      if (rbb.run h).start ≤ (rbb.run t).start then
        if n ≤ rbb.buf + rbb.bufSize - (rbb.run t).stop then
          ((rbb.run t).stop, rbb.buf + rbb.bufSize)
        else (rbb.buf, (rbb.run h).start)
      else ((rbb.run t).stop, (rbb.run h).start)
  | _, _ => (rbb.buf, rbb.buf + rbb.bufSize)

/-- What is known of the listed blocks. -/
structure Listed (rbb : Rbb) : Prop where
  length_eq : rbb.blkSet.length = rbb.blkMaxNum
  end_le : rbb.buf + rbb.bufSize ≤ 4294967296
  nodup : rbb.blkList.Nodup
  used : ∀ i ∈ rbb.blkList, (rbb.blk i).status ≠ .unused
  ringed : Ringed rbb.buf (rbb.buf + rbb.bufSize) (rbb.blkList.map rbb.run)

/-- The same of blocks that may be empty. -/
structure Linked (rbb : Rbb) : Prop where
  length_eq : rbb.blkSet.length = rbb.blkMaxNum
  end_le : rbb.buf + rbb.bufSize ≤ 4294967296
  nodup : rbb.blkList.Nodup
  used : ∀ i ∈ rbb.blkList, (rbb.blk i).status ≠ .unused
  wound : Wound rbb.buf (rbb.buf + rbb.bufSize) (rbb.blkList.map rbb.run)

theorem Listed.linked (h : Listed rbb) : Linked rbb :=
  ⟨h.length_eq, h.end_le, h.nodup, h.used, h.ringed.wound⟩

theorem Linked.listed (h : Linked rbb) (hpos : ∀ i ∈ rbb.blkList, 0 < (rbb.run i).len) :
    Listed rbb := by
  refine ⟨h.length_eq, h.end_le, h.nodup, h.used, h.wound.ringed fun r hr => ?_⟩
  obtain ⟨i, hi, rfl⟩ := List.mem_map.mp hr
  exact hpos i hi

theorem Listed.pos (h : Listed rbb) (hi : i ∈ rbb.blkList) : 0 < (rbb.run i).len :=
  h.ringed.pos _ (List.mem_map_of_mem hi)

/-- The listed blocks go round the end, and no byte is left between the last and the first. -/
def Rbb.Full (rbb : Rbb) : Prop :=
  ∃ h ∈ rbb.blkList.head?, ∃ t ∈ rbb.blkList.getLast?,
    (rbb.run t).start < (rbb.run h).start ∧ (rbb.run t).stop = (rbb.run h).start

instance Rbb.decidableFull (rbb : Rbb) : Decidable rbb.Full :=
  inferInstanceAs (Decidable (∃ h ∈ rbb.blkList.head?, ∃ t ∈ rbb.blkList.getLast?, _))

/-- The buffer and the size of the block set are the same. -/
structure SameBuffer (rbb rbb' : Rbb) : Prop where
  buf : rbb'.buf = rbb.buf
  bufSize : rbb'.bufSize = rbb.bufSize
  blkMaxNum : rbb'.blkMaxNum = rbb.blkMaxNum
  length : rbb'.blkSet.length = rbb.blkSet.length

theorem sameBuffer_setBlk (l : List Nat) : SameBuffer rbb { rbb.setBlk i b with blkList := l } :=
  ⟨rfl, rfl, rfl, List.length_set⟩

/-- A block that changes its status keeps its bytes. -/
theorem Rbb.run_status {st : RbbStatus} {l : List Nat} (hi : (rbb.blk i).status ≠ .unused) :
    Rbb.run { rbb.setBlk i { rbb.blk i with status := st } with blkList := l } j = rbb.run j := by
  show Rbb.run (rbb.setBlk i { rbb.blk i with status := st }) j = rbb.run j
  unfold Rbb.run
  rw [Rbb.blk_setBlk (Rbb.lt_length hi)]
  split_ifs with he
  · rw [he]
  · rfl

namespace Linked

variable (h : Linked rbb)

include h

/-- Any blocks may leave the list, and the listed ones keep their place. -/
theorem sublist (hs : SameBuffer rbb rbb') (hl : rbb'.blkList.Sublist rbb.blkList)
    (hb : ∀ i ∈ rbb'.blkList, rbb'.run i = rbb.run i ∧ (rbb'.blk i).status ≠ .unused) :
    Linked rbb' where
  length_eq := by rw [hs.length, hs.blkMaxNum, h.length_eq]
  end_le := by
    rw [hs.buf, hs.bufSize]
    exact h.end_le
  nodup := h.nodup.sublist hl
  used i hi := (hb i hi).2
  wound := by
    rw [hs.buf, hs.bufSize, List.map_congr_left fun i hi => (hb i hi).1]
    exact h.wound.sublist (hl.map rbb.run)

theorem range (hi : i ∈ rbb.blkList) :
    rbb.buf ≤ (rbb.run i).start ∧ (rbb.run i).start ≤ (rbb.run i).stop ∧
      (rbb.run i).stop ≤ rbb.buf + rbb.bufSize := by
  have h₁ := h.wound.range _ (List.mem_map_of_mem (f := rbb.run) hi)
  exact ⟨h₁.1, (rbb.run i).start_le_stop, h₁.2⟩

theorem apart (hi : i ∈ rbb.blkList) (hj : j ∈ rbb.blkList) (hij : i ≠ j) :
    (rbb.run i).Apart (rbb.run j) := by
  have hsymm : Std.Symm fun i j => (rbb.run i).Apart (rbb.run j) := ⟨fun _ _ => Run.Apart.symm⟩
  exact (List.pairwise_map.mp h.wound.apart).forall hi hj hij

theorem not_mem_of_unused (hnew : (rbb.blk new).status = .unused) : new ∉ rbb.blkList :=
  fun hmem => h.used new hmem hnew

/-- **A block put into the free space**, if an empty block is not put into none. -/
theorem append (hzero : n = 0 → ¬ rbb.Full) (hnew : findEmptyBlkInSet rbb = some new)
    (hroom : (rbb.gap n).1 + n ≤ (rbb.gap n).2) : Linked (rbb.append new (rbb.gap n).1 n) := by
  obtain ⟨hlt, hunused⟩ := findEmptyBlkInSet_some hnew
  have hlen : new < rbb.blkSet.length := h.length_eq ▸ hlt
  have hni := h.not_mem_of_unused hunused
  obtain ⟨a, ha⟩ : ∃ a, a = (rbb.gap n).1 := ⟨_, rfl⟩
  rw [← ha] at hroom ⊢
  have hblk : ∀ i, (rbb.append new a n).blk i = if i = new then ⟨.inited, n, a⟩ else rbb.blk i :=
    fun i => Rbb.blk_setBlk hlen
  have hold : ∀ i ∈ rbb.blkList, (rbb.append new a n).blk i = rbb.blk i := by
    intro i hi
    rw [hblk, if_neg (fun he : i = new => hni (he ▸ hi))]
  have hruns : (rbb.append new a n).blkList.map (rbb.append new a n).run =
      rbb.blkList.map rbb.run ++ [⟨a, n⟩] := by
    show (rbb.blkList ++ [new]).map (rbb.append new a n).run = _
    rw [List.map_append, List.map_singleton]
    congr 1
    · refine List.map_congr_left fun i hi => ?_
      rw [Rbb.run, hold i hi, Rbb.run]
    · rw [Rbb.run, hblk, if_pos rfl]
  refine ⟨(List.length_set).trans h.length_eq, h.end_le, ?_, ?_, ?_⟩
  · refine List.nodup_append.mpr ⟨h.nodup, List.nodup_singleton _, fun i hi j hj => ?_⟩
    rw [List.mem_singleton.mp hj]
    exact fun he : i = new => hni (he ▸ hi)
  · intro i hi
    rcases List.mem_append.mp hi with hi | hi
    · rw [hold i hi]
      exact h.used i hi
    · rw [List.mem_singleton.mp hi, hblk, if_pos rfl]
      simp
  · rw [hruns]
    change Wound rbb.buf (rbb.buf + rbb.bufSize) (rbb.blkList.map rbb.run ++ [⟨a, n⟩])
    have hstop : (⟨a, n⟩ : Run).stop = a + n := rfl
    cases hhead : rbb.blkList.head? with
    | none =>
        -- the list is empty
        have hnil := List.head?_eq_none_iff.mp hhead
        have hgap : rbb.gap n = (rbb.buf, rbb.buf + rbb.bufSize) := by
          unfold Rbb.gap
          rw [hhead]
        rw [hgap] at ha hroom
        rw [hnil]
        exact Wound.singleton ha.ge hroom
    | some hd =>
        obtain ⟨t, htail⟩ : ∃ t, rbb.blkList.getLast? = some t := by
          have hne : rbb.blkList ≠ [] := fun he => by simp [he] at hhead
          exact ⟨_, List.getLast?_eq_some_getLast hne⟩
        have hgap : rbb.gap n = if (rbb.run hd).start ≤ (rbb.run t).start then
            if n ≤ rbb.buf + rbb.bufSize - (rbb.run t).stop then
              ((rbb.run t).stop, rbb.buf + rbb.bufSize)
            else (rbb.buf, (rbb.run hd).start)
          else ((rbb.run t).stop, (rbb.run hd).start) := by
          unfold Rbb.gap
          rw [hhead, htail]
        have hhead' : (rbb.blkList.map rbb.run).head? = some (rbb.run hd) := by
          rw [List.head?_map, hhead, Option.map_some]
        have htail' : (rbb.blkList.map rbb.run).getLast? = some (rbb.run t) := by
          rw [List.getLast?_map, htail, Option.map_some]
        rw [hgap] at ha hroom
        split_ifs at ha hroom with hle hbehind
        · exact h.wound.concat_behind hhead' htail' hle ha.ge hroom
        · have hlt : a < (rbb.run hd).start := by omega
          exact h.wound.concat_front hhead' htail' hle ha.ge hroom hlt
        · have hlt : a < (rbb.run hd).start := by
            by_contra hge
            refine hzero (by omega) ⟨hd, hhead, t, htail, Nat.not_le.mp hle, ?_⟩
            omega
          exact h.wound.concat_between hhead' htail' (Nat.not_le.mp hle) ha.ge hroom hlt

/-- **What `rt_rbb_blk_alloc` does**: it puts an unused block at the start of the free space. The
addresses do not reach the end of the memory where a block is empty. -/
theorem alloc (hedge : rbb.buf + rbb.bufSize < 4294967296 ∨
      0 < n ∧ ∀ i ∈ rbb.blkList, 0 < (rbb.run i).len)
    (hfit : rbb.blkList = [] → n ≤ rbb.bufSize) {ans : Option Nat}
    (he : rtRbbBlkAlloc rbb n = some (ans, rbb')) :
    (ans = none ∧ rbb' = rbb) ∨
      ∃ new, ans = some new ∧ findEmptyBlkInSet rbb = some new ∧
        (rbb.gap n).1 + n ≤ (rbb.gap n).2 ∧ rbb' = rbb.append new (rbb.gap n).1 n := by
  have hend := h.end_le
  unfold rtRbbBlkAlloc at he
  split at he
  · exact absurd he (by simp)
  cases hnew : findEmptyBlkInSet rbb with
  | none =>
      simp only [hnew, Option.some.injEq, Prod.mk.injEq] at he
      exact Or.inl ⟨he.1.symm, he.2.symm⟩
  | some new =>
      simp only [hnew] at he
      by_cases hnum : rbb.blkList.length < rbb.blkMaxNum
      swap
      · rw [if_neg hnum, Option.some.injEq, Prod.mk.injEq] at he
        exact Or.inl ⟨he.1.symm, he.2.symm⟩
      rw [if_pos hnum] at he
      -- an answer that is a block, put at the start of the gap
      have hput : ∀ lo hi, rbb.gap n = (lo, hi) → lo + n ≤ hi →
          some (some new, rbb.append new lo n) = some (ans, rbb') →
          ∃ new', ans = some new' ∧ some new = some new' ∧
            (rbb.gap n).1 + n ≤ (rbb.gap n).2 ∧ rbb' = rbb.append new' (rbb.gap n).1 n := by
        intro lo hi hgap hroom hans
        rw [Option.some.injEq, Prod.mk.injEq] at hans
        rw [hgap]
        exact ⟨new, hans.1.symm, rfl, hroom, hans.2.symm⟩
      cases hhead : rbb.blkList.head? with
      | none =>
          have hnil := List.head?_eq_none_iff.mp hhead
          simp only [hhead] at he
          refine Or.inr (hput rbb.buf (rbb.buf + rbb.bufSize) ?_ ?_ he)
          · unfold Rbb.gap
            rw [hhead]
          · have h₁ := hfit hnil
            omega
      | some hd =>
          obtain ⟨t, htail⟩ : ∃ t, rbb.blkList.getLast? = some t := by
            have hne : rbb.blkList ≠ [] := fun he => by simp [he] at hhead
            exact ⟨_, List.getLast?_eq_some_getLast hne⟩
          simp only [hhead, htail] at he
          have hhd := List.mem_of_head? hhead
          have htl := List.mem_of_getLast? htail
          obtain ⟨hlo, hlt, hhi⟩ := h.range hhd
          obtain ⟨tlo, tlt, thi⟩ := h.range htl
          have hstart : (rbb.run hd).start < 4294967296 := by
            rcases hedge with hedge | ⟨-, hall⟩
            · omega
            · have h₁ := Run.start_lt_stop (hall hd hhd)
              omega
          have hbig : rbb.buf < 4294967296 ∧
              rbb.buf + rbb.bufSize - (rbb.run t).stop < 4294967296 := by
            rcases hedge with hedge | ⟨-, hall⟩
            · omega
            · have h₁ := Run.start_lt_stop (hall t htl)
              omega
          have hlast : ∀ x, (rbb.run t).stop + n ≤ x → x ≤ rbb.buf + rbb.bufSize →
              (rbb.run t).stop < 4294967296 := by
            rcases hedge with hedge | ⟨hpos, -⟩
            · omega
            · omega
          have hgap : rbb.gap n = if (rbb.run hd).start ≤ (rbb.run t).start then
              if n ≤ rbb.buf + rbb.bufSize - (rbb.run t).stop then
                ((rbb.run t).stop, rbb.buf + rbb.bufSize)
              else (rbb.buf, (rbb.run hd).start)
            else ((rbb.run t).stop, (rbb.run hd).start) := by
            unfold Rbb.gap
            rw [hhead, htail]
          have hstop : (rbb.blk t).stop = u32 (rbb.run t).stop := rfl
          have hword : ∀ x, x < 4294967296 → u32 x = x := fun x => Nat.mod_eq_of_lt
          have hhd' : u32 (rbb.run hd).start = (rbb.run hd).start := hword _ hstart
          have hbuf : u32 rbb.buf = rbb.buf := hword _ hbig.1
          have e₁ : sub32 (u32 (rbb.buf + rbb.bufSize)) (u32 (rbb.run t).stop) =
              rbb.buf + rbb.bufSize - (rbb.run t).stop := sub32_u32 thi hbig.2
          have e₂ : sub32 (rbb.blk hd).buf rbb.buf = (rbb.run hd).start - rbb.buf := by
            have h₁ := sub32_u32 hlo (by omega)
            rw [hhd', hbuf] at h₁
            exact h₁
          by_cases hle : (rbb.run hd).start ≤ (rbb.run t).start
          · rw [if_pos (show (rbb.blk hd).buf ≤ (rbb.blk t).buf from hle), hstop, e₁, e₂] at he
            rw [if_pos hle] at hgap
            by_cases hbehind : n ≤ rbb.buf + rbb.bufSize - (rbb.run t).stop
            · rw [if_pos (show rbb.buf + rbb.bufSize - (rbb.run t).stop ≥ n from hbehind),
                hword _ (hlast (rbb.buf + rbb.bufSize) (by omega) le_rfl)] at he
              rw [if_pos hbehind] at hgap
              exact Or.inr (hput _ _ hgap (by omega) he)
            · rw [if_neg (show ¬ rbb.buf + rbb.bufSize - (rbb.run t).stop ≥ n from hbehind)] at he
              rw [if_neg hbehind] at hgap
              by_cases hfront : (rbb.run hd).start - rbb.buf ≥ n
              · rw [if_pos hfront] at he
                exact Or.inr (hput _ _ hgap (by omega) he)
              · rw [if_neg hfront, Option.some.injEq, Prod.mk.injEq] at he
                exact Or.inl ⟨he.1.symm, he.2.symm⟩
          · have hbetween : (rbb.run t).stop ≤ (rbb.run hd).start :=
              h.wound.stop_le_of_wrapped (by rw [List.head?_map, hhead]; rfl)
                (by rw [List.getLast?_map, htail]; rfl) (Nat.not_le.mp hle)
            have e₃ : sub32 (rbb.blk hd).buf (u32 (rbb.run t).stop) =
                (rbb.run hd).start - (rbb.run t).stop := by
              have h₁ := sub32_u32 hbetween (by omega)
              rw [hhd'] at h₁
              exact h₁
            rw [if_neg (show ¬ (rbb.blk hd).buf ≤ (rbb.blk t).buf from hle), hstop, e₃] at he
            rw [if_neg hle] at hgap
            by_cases hroom : (rbb.run hd).start - (rbb.run t).stop ≥ n
            · rw [if_pos hroom, hword _ (hlast (rbb.run hd).start (by omega) (by omega))] at he
              exact Or.inr (hput _ _ hgap (by omega) he)
            · rw [if_neg hroom, Option.some.injEq, Prod.mk.injEq] at he
              exact Or.inl ⟨he.1.symm, he.2.symm⟩

/-- A listed block changes its status, and blocks leave the list. -/
theorem status {st : RbbStatus} {l : List Nat} (hi : (rbb.blk i).status ≠ .unused)
    (hl : l.Sublist rbb.blkList) (hst : i ∈ l → st ≠ .unused) :
    Linked { rbb.setBlk i { rbb.blk i with status := st } with blkList := l } := by
  refine h.sublist (sameBuffer_setBlk l) hl fun j hj => ?_
  have hblk : (rbb.setBlk i { rbb.blk i with status := st }).blk j =
      if j = i then { rbb.blk i with status := st } else rbb.blk j :=
    Rbb.blk_setBlk (Rbb.lt_length hi)
  have hj' := h.used j (hl.subset hj)
  refine ⟨Rbb.run_status hi, ?_⟩
  show ((rbb.setBlk i { rbb.blk i with status := st }).blk j).status ≠ .unused
  rw [hblk]
  split_ifs with he
  · exact hst (he ▸ hj)
  · exact hj'

end Linked

namespace Listed

variable (h : Listed rbb)

include h

theorem sublist (hs : SameBuffer rbb rbb') (hl : rbb'.blkList.Sublist rbb.blkList)
    (hb : ∀ i ∈ rbb'.blkList, rbb'.run i = rbb.run i ∧ (rbb'.blk i).status ≠ .unused) :
    Listed rbb' := by
  refine (h.linked.sublist hs hl hb).listed fun i hi => ?_
  rw [(hb i hi).1]
  exact h.pos (hl.subset hi)

theorem apart (hi : i ∈ rbb.blkList) (hj : j ∈ rbb.blkList) (hij : i ≠ j) :
    (rbb.run i).Apart (rbb.run j) :=
  h.linked.apart hi hj hij

theorem not_mem_of_unused (hnew : (rbb.blk new).status = .unused) : new ∉ rbb.blkList :=
  h.linked.not_mem_of_unused hnew

/-- **A block put into the free space** leaves the list ringed. -/
theorem append (hpos : 0 < n) (hnew : findEmptyBlkInSet rbb = some new)
    (hroom : (rbb.gap n).1 + n ≤ (rbb.gap n).2) : Listed (rbb.append new (rbb.gap n).1 n) := by
  have hlt : new < rbb.blkSet.length := h.length_eq ▸ (findEmptyBlkInSet_some hnew).1
  refine (h.linked.append (fun h₀ => absurd h₀ hpos.ne') hnew hroom).listed fun i hi => ?_
  have hblk : (rbb.append new (rbb.gap n).1 n).blk i =
      if i = new then ⟨.inited, n, (rbb.gap n).1⟩ else rbb.blk i := Rbb.blk_setBlk hlt
  unfold Rbb.run
  rw [hblk]
  split_ifs with he
  · exact hpos
  · rcases List.mem_append.mp hi with hi | hi
    · exact h.pos hi
    · exact absurd (List.mem_singleton.mp hi) he

theorem alloc (hpos : 0 < n) (hfit : rbb.blkList = [] → n ≤ rbb.bufSize) {ans : Option Nat}
    (he : rtRbbBlkAlloc rbb n = some (ans, rbb')) :
    (ans = none ∧ rbb' = rbb) ∨
      ∃ new, ans = some new ∧ findEmptyBlkInSet rbb = some new ∧
        (rbb.gap n).1 + n ≤ (rbb.gap n).2 ∧ rbb' = rbb.append new (rbb.gap n).1 n :=
  h.linked.alloc (Or.inr ⟨hpos, fun _ => h.pos⟩) hfit he

/-- A listed block changes its status, and blocks leave the list. -/
theorem status {st : RbbStatus} {l : List Nat} (hi : (rbb.blk i).status ≠ .unused)
    (hl : l.Sublist rbb.blkList) (hst : i ∈ l → st ≠ .unused) :
    Listed { rbb.setBlk i { rbb.blk i with status := st } with blkList := l } := by
  refine (h.linked.status hi hl hst).listed fun j hj => ?_
  rw [Rbb.run_status hi]
  exact h.pos (hl.subset hj)

theorem put (he : rtRbbBlkPut rbb i = some rbb') : Listed rbb' := by
  unfold rtRbbBlkPut at he
  split_ifs at he with hst
  cases he
  exact h.status (l := rbb.blkList) (by rw [hst]; simp) (List.Sublist.refl _) (by simp)

theorem get : Listed (rtRbbBlkGet rbb).2 := by
  unfold rtRbbBlkGet
  split
  · rename_i i hi
    have hput : (rbb.blk i).status = .put := by simpa using List.find?_some hi
    exact h.status (l := rbb.blkList) (by rw [hput]; simp) (List.Sublist.refl _) (by simp)
  · exact h

theorem free (he : rtRbbBlkFree rbb i = some rbb') : Listed rbb' := by
  unfold rtRbbBlkFree at he
  split_ifs at he with hst
  cases he
  exact h.status hst List.erase_sublist fun hmem => absurd hmem h.nodup.not_mem_erase

end Listed

theorem linked_init {buf bufSize : Nat} (hend : buf + bufSize ≤ 4294967296)
    (blockSet : List RbbBlk) : Linked (rtRbbInit buf bufSize blockSet blockSet.length) :=
  ⟨List.length_mapIdx, hend, List.nodup_nil, by simp [rtRbbInit], Wound.nil⟩

theorem listed_init {buf bufSize : Nat} (hend : buf + bufSize ≤ 4294967296)
    (blockSet : List RbbBlk) : Listed (rtRbbInit buf bufSize blockSet blockSet.length) :=
  (linked_init hend blockSet).listed (by simp [rtRbbInit])

theorem rtRbbInit_unused {buf bufSize : Nat} (blockSet : List RbbBlk) :
    ((rtRbbInit buf bufSize blockSet blockSet.length).blk i).status = .unused := by
  unfold Rbb.blk rtRbbInit
  rw [List.getD_eq_getElem?_getD, List.getElem?_mapIdx]
  by_cases hi : i < blockSet.length
  · rw [List.getElem?_eq_getElem hi, Option.map_some, if_pos hi]
    rfl
  · rw [List.getElem?_eq_none (Nat.not_lt.mp hi)]
    rfl

/-! ## Runs -/

/-- The calls on single blocks. -/
inductive BlkCall
  | alloc (blkSize : Nat)
  | put (block : Nat)
  | get
  | free (block : Nat)

/-- The buffer, and when each block was allocated last. -/
structure BlkSys where
  rbb : Rbb
  born : Nat → Nat
  clock : Nat

/-- A call asks for a byte at least. -/
def BlkCall.exec (s : BlkSys) : BlkCall → Option BlkSys
  | .alloc blkSize =>
      if 1 ≤ blkSize then
        (rtRbbBlkAlloc s.rbb blkSize).map fun r =>
          match r.1 with
          | some new => ⟨r.2, Function.update s.born new s.clock, s.clock + 1⟩
          | none => { s with rbb := r.2 }
      else none
  | .put block => (rtRbbBlkPut s.rbb block).map fun rbb => { s with rbb := rbb }
  | .get => some { s with rbb := (rtRbbBlkGet s.rbb).2 }
  | .free block => (rtRbbBlkFree s.rbb block).map fun rbb => { s with rbb := rbb }

/-- A new buffer, with as many blocks as it is told. -/
def BlkSys.Init (s : BlkSys) : Prop :=
  ∃ buf bufSize blockSet, buf + bufSize ≤ 4294967296 ∧
    s.rbb = rtRbbInit buf bufSize blockSet blockSet.length

/-- While the list is empty, no block is to be larger than the buffer. -/
def BlkCall.Fits (s : BlkSys) : BlkCall → Prop
  | .alloc blkSize => s.rbb.blkList = [] → blkSize ≤ s.rbb.bufSize
  | _ => True

instance (s : BlkSys) : (c : BlkCall) → Decidable (c.Fits s)
  | .alloc _ => inferInstanceAs (Decidable (_ → _))
  | .put _ => inferInstanceAs (Decidable True)
  | .get => inferInstanceAs (Decidable True)
  | .free _ => inferInstanceAs (Decidable True)

/-- What is to hold of the blocks. -/
structure BlkSys.Sound (s : BlkSys) : Prop where
  apart : ∀ i ∈ s.rbb.blkList, ∀ j ∈ s.rbb.blkList, i ≠ j →
    (s.rbb.run i).Apart (s.rbb.run j)
  nodup : s.rbb.blkList.Nodup
  mem_iff : ∀ i, i ∈ s.rbb.blkList ↔ i < s.rbb.blkMaxNum ∧ (s.rbb.blk i).status ≠ .unused
  order : s.rbb.blkList.Pairwise fun i j => s.born i < s.born j
  descent : descents (s.rbb.blkList.map fun i => (s.rbb.blk i).buf) ≤ 1
  get_some : ∀ i, (rtRbbBlkGet s.rbb).1 = some i → (s.rbb.blk i).status = .put ∧
    ∀ j < s.rbb.blkMaxNum, (s.rbb.blk j).status = .put → j = i ∨ s.born i < s.born j
  get_none : (rtRbbBlkGet s.rbb).1 = none → ∀ j < s.rbb.blkMaxNum, (s.rbb.blk j).status ≠ .put

/-- The invariant. -/
structure BlkSys.Inv (s : BlkSys) : Prop where
  listed : Listed s.rbb
  mem_list : ∀ i, (s.rbb.blk i).status ≠ .unused → i ∈ s.rbb.blkList
  order : s.rbb.blkList.Pairwise fun i j => s.born i < s.born j
  born_lt : ∀ i ∈ s.rbb.blkList, s.born i < s.clock

variable {s s' : BlkSys}

namespace BlkSys.Inv

theorem init (h₀ : s.Init) : s.Inv := by
  obtain ⟨buf, bufSize, blockSet, hend, hrbb⟩ := h₀
  have hlist : s.rbb.blkList = [] := by
    rw [hrbb]
    rfl
  refine ⟨hrbb ▸ listed_init hend blockSet, fun i hi => ?_, ?_, ?_⟩
  · rw [hrbb] at hi
    exact absurd (rtRbbInit_unused blockSet) hi
  · rw [hlist]
    exact List.Pairwise.nil
  · simp [hlist]

/-- A call that allocates nothing. -/
theorem sublist (h : s.Inv) (hlisted : Listed rbb') (hl : rbb'.blkList.Sublist s.rbb.blkList)
    (hmem : ∀ i, (rbb'.blk i).status ≠ .unused → i ∈ rbb'.blkList) :
    BlkSys.Inv { s with rbb := rbb' } :=
  ⟨hlisted, hmem, h.order.sublist hl, fun i hi => h.born_lt i (hl.subset hi)⟩

/-- The status of a block that is in use. -/
theorem blk_status (hi : (rbb.blk i).status ≠ .unused) {st : RbbStatus} :
    ((rbb.setBlk i { rbb.blk i with status := st }).blk j).status =
      if j = i then st else (rbb.blk j).status := by
  rw [Rbb.blk_setBlk (Rbb.lt_length hi)]
  split_ifs <;> rfl

theorem status_ne (h : s.Inv) (hi : (s.rbb.blk i).status ≠ .unused) {st : RbbStatus} (j : Nat)
    (hj : ((s.rbb.setBlk i { s.rbb.blk i with status := st }).blk j).status ≠ .unused) :
    j ∈ s.rbb.blkList := by
  rw [blk_status hi] at hj
  split_ifs at hj with he
  · exact h.mem_list j (he ▸ hi)
  · exact h.mem_list j hj

theorem alloc (h : s.Inv) (hpos : 0 < n) (hnew : findEmptyBlkInSet s.rbb = some new)
    (hroom : (s.rbb.gap n).1 + n ≤ (s.rbb.gap n).2) :
    BlkSys.Inv ⟨s.rbb.append new (s.rbb.gap n).1 n, Function.update s.born new s.clock,
      s.clock + 1⟩ := by
  obtain ⟨hlt, hunused⟩ := findEmptyBlkInSet_some hnew
  have hni := h.listed.not_mem_of_unused hunused
  have hold : ∀ i ∈ s.rbb.blkList, Function.update s.born new s.clock i = s.born i :=
    fun i hi => Function.update_of_ne (fun he : i = new => hni (he ▸ hi)) _ _
  have hself : Function.update s.born new s.clock new = s.clock := Function.update_self _ _ _
  refine ⟨h.listed.append hpos hnew hroom, fun i hi => ?_, ?_, fun i hi => ?_⟩
  · show i ∈ s.rbb.blkList ++ [new]
    by_cases he : i = new
    · rw [he]
      simp
    · have hblk : (s.rbb.append new (s.rbb.gap n).1 n).blk i = s.rbb.blk i :=
        (Rbb.blk_setBlk (h.listed.length_eq ▸ hlt)).trans (if_neg he)
      rw [hblk] at hi
      exact List.mem_append_left _ (h.mem_list i hi)
  · refine List.pairwise_append.mpr ⟨?_, List.pairwise_singleton _ _, fun i hi j hj => ?_⟩
    · refine h.order.imp_of_mem fun {i j} hi hj hij => ?_
      show Function.update s.born new s.clock i < Function.update s.born new s.clock j
      rw [hold i hi, hold j hj]
      exact hij
    · show Function.update s.born new s.clock i < Function.update s.born new s.clock j
      rw [List.mem_singleton.mp hj, hold i hi, hself]
      exact h.born_lt i hi
  · show Function.update s.born new s.clock i < s.clock + 1
    rcases List.mem_append.mp hi with hi | hi
    · rw [hold i hi]
      exact (h.born_lt i hi).trans (Nat.lt_succ_self _)
    · rw [List.mem_singleton.mp hi, hself]
      exact Nat.lt_succ_self _

/-- **Every call keeps the invariant**, if the block is not larger than the buffer. -/
theorem step (h : s.Inv) {c : BlkCall} (hfits : c.Fits s) (he : c.exec s = some s') : s'.Inv := by
  cases c with
  | alloc n =>
      simp only [BlkCall.exec] at he
      split_ifs at he with hpos
      obtain ⟨⟨ans, rbb'⟩, hr, rfl⟩ := Option.map_eq_some_iff.mp he
      rcases h.listed.alloc hpos hfits hr with ⟨rfl, rfl⟩ | ⟨new, rfl, hnew, hroom, rfl⟩
      · exact h
      · exact h.alloc hpos hnew hroom
  | put i =>
      obtain ⟨rbb', hr, rfl⟩ := Option.map_eq_some_iff.mp he
      have hlisted := h.listed.put hr
      unfold rtRbbBlkPut at hr
      split_ifs at hr with hst
      cases hr
      exact h.sublist hlisted (List.Sublist.refl _) (h.status_ne (by rw [hst]; simp))
  | get =>
      cases he
      have hlisted := h.listed.get
      unfold rtRbbBlkGet at hlisted ⊢
      split at hlisted
      · rename_i i hi
        have hput : (s.rbb.blk i).status = .put := by simpa using List.find?_some hi
        exact h.sublist hlisted (List.Sublist.refl _) (h.status_ne (by rw [hput]; simp))
      · exact h
  | free i =>
      obtain ⟨rbb', hr, rfl⟩ := Option.map_eq_some_iff.mp he
      have hlisted := h.listed.free hr
      unfold rtRbbBlkFree at hr
      split_ifs at hr with hst
      cases hr
      refine h.sublist hlisted List.erase_sublist fun j hj => ?_
      have hj' : ((s.rbb.setBlk i { s.rbb.blk i with status := .unused }).blk j).status ≠ .unused := hj
      have hji : j ≠ i := by
        intro he
        rw [blk_status hst, if_pos he] at hj'
        exact hj' rfl
      exact (List.mem_erase_of_ne hji).mpr (h.status_ne hst j hj')

/-- The first block in the list that was put is the oldest one. -/
theorem get_oldest (h : s.Inv) (hi : (rtRbbBlkGet s.rbb).1 = some i) :
    (s.rbb.blk i).status = .put ∧
      ∀ j, (s.rbb.blk j).status = .put → j = i ∨ s.born i < s.born j := by
  unfold rtRbbBlkGet at hi
  split at hi
  · rename_i i' hfind
    cases hi
    obtain ⟨hput, as, bs, hl, has⟩ := List.find?_eq_some_iff_append.mp hfind
    refine ⟨by simpa using hput, fun j hj => ?_⟩
    have hmem := h.mem_list j (by rw [hj]; simp)
    have horder := h.order
    rw [hl] at hmem horder
    rcases List.mem_append.mp hmem with hj' | hj'
    · exact absurd hj (by simpa using has j hj')
    · rcases List.mem_cons.mp hj' with rfl | hj'
      · exact Or.inl rfl
      · exact Or.inr ((List.pairwise_cons.mp (List.pairwise_append.mp horder).2.1).1 j hj')
  · cases hi

theorem get_none (h : s.Inv) (hn : (rtRbbBlkGet s.rbb).1 = none) (j : Nat) :
    (s.rbb.blk j).status ≠ .put := by
  intro hj
  unfold rtRbbBlkGet at hn
  split at hn
  · cases hn
  · rename_i hfind
    have h₁ := List.find?_eq_none.mp hfind j (h.mem_list j (by rw [hj]; simp))
    exact h₁ (by simpa using hj)

theorem sound (h : s.Inv) : s.Sound where
  apart i hi j hj hij := by
    exact h.listed.apart hi hj hij
  nodup := h.listed.nodup
  mem_iff i := by
    constructor
    · intro hi
      have hu := h.listed.used i hi
      exact ⟨h.listed.length_eq ▸ Rbb.lt_length hu, hu⟩
    · exact fun hi => h.mem_list i hi.2
  order := h.order
  descent := by
    have h₁ := h.listed.ringed.descents_le
    rw [List.map_map] at h₁
    exact h₁
  get_some i hi := ⟨(h.get_oldest hi).1, fun j _ => (h.get_oldest hi).2 j⟩
  get_none hn j _ := h.get_none hn j

end BlkSys.Inv

/-- **Ring blocks do not overlap** as long as no block larger than the buffer is asked for while the
list is empty. -/
theorem ring_blocks_sound
    (hr : Trans.Reachable BlkSys.Init (fun s c s' => BlkCall.exec s c = some s' ∧ c.Fits s) s) :
    s.Sound := by
  have hinv : s.Inv :=
    hr.invariant (fun _ h₀ => .init h₀) fun _ _ _ _ h hc => h.step hc.2 hc.1
  exact hinv.sound

/-- A buffer of sixteen bytes in the internal memory, with two blocks. -/
def sixteenBytes : BlkSys :=
  ⟨rtRbbInit 0x20000000 16 [⟨.unused, 0, 0⟩, ⟨.unused, 0, 0⟩] 2, fun _ => 0, 0⟩

theorem sixteenBytes_init : sixteenBytes.Init :=
  ⟨0x20000000, 16, [⟨.unused, 0, 0⟩, ⟨.unused, 0, 0⟩], by decide, rfl⟩

/-- The first of two blocks is freed, and the next one goes in front of the second. -/
theorem ring_blocks_sound_wrapped :
    ∃ s : BlkSys, s.Sound ∧ s.rbb.blkList = [1, 0] ∧
      s.rbb.blkList.map (fun i => (s.rbb.blk i).buf) = [0x20000008, 0x20000000] := by
  have hrun : (Trans.runList (Trans.stepIf BlkCall.exec fun s c => c.Fits s) sixteenBytes
      [.alloc 8, .alloc 4, .put 0, .get, .free 0, .alloc 6]).map (fun s =>
        decide (s.rbb.blkList = [1, 0] ∧
          s.rbb.blkList.map (fun i => (s.rbb.blk i).buf) = [0x20000008, 0x20000000])) = some true := by
    decide +kernel
  obtain ⟨s, hs, hdec⟩ := Option.map_eq_some_iff.mp hrun
  have hr : Trans.Reachable BlkSys.Init _ s :=
    Trans.reachable_of_runList_stepIf sixteenBytes_init hs
  exact ⟨s, ring_blocks_sound hr, of_decide_eq_true hdec⟩

/-- Blocks that are larger than the buffer, one after another, round all the memory. -/
def roundMemory : List BlkCall :=
  .alloc 0xffffff :: (List.replicate 127
    [.alloc 0xffffff, .free 0, .alloc 0xffffff, .free 1]).flatten ++
    [.alloc 0xffffff, .free 0, .alloc 264, .free 1, .alloc 9]

theorem ring_blocks_overlap :
    ¬ ∀ s, Trans.Reachable BlkSys.Init (fun s c s' => BlkCall.exec s c = some s') s → s.Sound := by
  have hrun : (Trans.runList BlkCall.exec sixteenBytes roundMemory).map (fun s =>
      decide (s.rbb.blkList = [0, 1] ∧ ¬ (s.rbb.run 0).Apart (s.rbb.run 1))) = some true := by
    decide +kernel
  obtain ⟨s, hs, hdec⟩ := Option.map_eq_some_iff.mp hrun
  obtain ⟨hlist, hover⟩ := of_decide_eq_true hdec
  intro hclaim
  have hsound := hclaim s (Trans.reachable_of_runList (.init sixteenBytes_init) hs)
  exact hover (hsound.apart 0 (by rw [hlist]; simp) 1 (by rw [hlist]; simp) (by decide))

end RTThread.Drivers
