import Mathlib.Tactic
import RTThread.Lib.Sectors

set_option autoImplicit false

/-! # Erasing the flash (`drv_flash_f4.c`)

The flash of the board is the first bank, 12 of the 24 sectors that `GetSector` knows. `stm32_flash_erase`
checks the end of the range in 32-bit arithmetic and nothing else, and `GetSector` takes every address that
it does not know for one of the last sector.
-/

namespace RTThread.Flash

open Sectors

/-! ## The code -/

/-- `ADDR_FLASH_SECTOR_0` and so on. -/
def addrFlashSector : List UInt32 :=
  [0x08000000, 0x08004000, 0x08008000, 0x0800C000, 0x08010000, 0x08020000, 0x08040000, 0x08060000,
    0x08080000, 0x080A0000, 0x080C0000, 0x080E0000, 0x08100000, 0x08104000, 0x08108000, 0x0810C000,
    0x08110000, 0x08120000, 0x08140000, 0x08160000, 0x08180000, 0x081A0000, 0x081C0000, 0x081E0000]

/-- `STM32_FLASH_END_ADDRESS` -/
def endAddress : UInt32 := 0x08000000 + 1024 * 1024

/-- `else if((Address < ADDR_FLASH_SECTOR_1) && (Address >= ADDR_FLASH_SECTOR_0))` and so on, from a sector
on; the last one is the `else`. -/
def getSectorFrom (address : UInt32) : Nat → List UInt32 → Nat
  | sector, start :: next :: starts =>
      if address < next ∧ address ≥ start then sector else getSectorFrom address (sector + 1) (next :: starts)
  | sector, _ => sector

/-- `GetSector(Address)` -/
def getSector (address : UInt32) : UInt32 := UInt32.ofNat (getSectorFrom address 0 addrFlashSector)

/-- `FLASH_EraseInitTypeDef`; the other fields are constants. -/
structure EraseInit where
  sector : UInt32
  nbSectors : UInt32
  deriving DecidableEq

/-- `for(index = Sector; index < (NbSectors + Sector); index++)` erases the sector. -/
def EraseInit.Erases (init : EraseInit) (index : UInt32) : Prop :=
  init.sector ≤ index ∧ index < init.nbSectors + init.sector

/-- The sectors that are erased for a range. -/
def eraseInit (addr size : UInt32) : EraseInit where
  sector := getSector addr
  nbSectors := getSector (addr + size - 1) - getSector addr + 1

/-- `stm32_flash_erase(addr, size)`: the result, and what `HAL_FLASHEx_Erase` is called with. Whether that
succeeds is a parameter. The result is an `int`. -/
def stm32FlashErase (erase : EraseInit → Bool) (addr size : UInt32) : Int × Option EraseInit :=
  if addr + size > endAddress then (-10, none)
  else (if erase (eraseInit addr size) then (size.toNat : Int).bmod 4294967296 else -1,
    some (eraseInit addr size))

/-! ## The memory map -/

/-- The sizes of the sectors of both banks. -/
def sectorSizes : List Nat :=
  let bank := List.replicate 4 16384 ++ [65536] ++ List.replicate 7 131072
  bank ++ bank

/-- Where a sector starts. -/
def sectorBase (i : Nat) : Nat := 0x08000000 + (sectorSizes.take i).sum

/-- The byte is in the flash of the board. -/
def InFlash (x : Nat) : Prop := 0x08000000 ≤ x ∧ x < 0x08000000 + 1024 * 1024

/-- What is asked of `stm32_flash_erase`: the range is in the flash, and exactly the sectors that it touches
are erased. -/
def ErasesRange (erase : EraseInit → Bool) (addr size : UInt32) : Prop :=
  (∀ x, addr.toNat ≤ x → x < addr.toNat + size.toNat → InFlash x) ∧
    ∃ init, (stm32FlashErase erase addr size).2 = some init ∧ ∀ index : UInt32, init.Erases index ↔
      ∃ x, addr.toNat ≤ x ∧ x < addr.toNat + size.toNat ∧ In sectorBase index.toNat x

/-- The range is in the flash; an empty one is at the start of a sector that is not the first one, or at the
end of the flash. -/
def EraseSafe (addr size : UInt32) : Prop :=
  if size = 0 then ∃ k, 0 < k ∧ k ≤ 12 ∧ addr.toNat = sectorBase k
  else 0x08000000 ≤ addr.toNat ∧ addr.toNat + size.toNat ≤ 0x08000000 + 1024 * 1024

/-! ## The sectors -/

theorem sectorBase_monotone : Monotone sectorBase := by
  intro i j hij
  unfold sectorBase
  have hsum := (List.take_sublist_take_left hij (l := sectorSizes)).sum_le_sum fun _ _ => Nat.zero_le _
  exact Nat.add_le_add_left hsum _

theorem sectorBase_lt : ∀ k, k < 24 → sectorBase k < sectorBase (k + 1) := by
  decide

theorem sectorBase_zero : sectorBase 0 = 0x08000000 := by decide

theorem sectorBase_thirteen : sectorBase 13 = 0x08104000 := by decide

theorem sectorBase_start : ∀ k, k < 24 → (addrFlashSector[k]?).map UInt32.toNat = some (sectorBase k) := by
  decide

section Lookup

variable {a : UInt32} {k : Nat} {starts : List UInt32}

/-- The look-up ends in the last sector that starts at the address or in front of it. -/
theorem getSectorFrom_spec (b : UInt32) (hstarts : addrFlashSector.drop k = b :: starts) (hb : b ≤ a) :
    ∃ start, addrFlashSector[getSectorFrom a k (b :: starts)]? = some start ∧ start ≤ a ∧
      ∀ next, addrFlashSector[getSectorFrom a k (b :: starts) + 1]? = some next → a < next := by
  induction starts generalizing k b with
  | nil =>
      have hget : addrFlashSector[k]? = some b := by
        rw [← List.head?_drop, hstarts]
        rfl
      have hend : addrFlashSector[k + 1]? = none := by
        rw [← List.head?_drop, ← List.drop_drop, hstarts]
        rfl
      refine ⟨b, hget, hb, fun next hnext => ?_⟩
      cases hend.symm.trans hnext
  | cons c starts ih =>
      have hrest : addrFlashSector.drop (k + 1) = c :: starts := by
        rw [← List.drop_drop, hstarts]
        rfl
      unfold getSectorFrom
      by_cases hlt : a < c
      · have hget : addrFlashSector[k]? = some b := by
          rw [← List.head?_drop, hstarts]
          rfl
        have hnext : addrFlashSector[k + 1]? = some c := by
          rw [← List.head?_drop, hrest]
          rfl
        rw [if_pos ⟨hlt, hb⟩]
        refine ⟨b, hget, hb, fun next hnext' => ?_⟩
        cases hnext.symm.trans hnext'
        exact hlt
      · rw [if_neg fun h => hlt h.1]
        exact ih c hrest (UInt32.not_lt.mp hlt)

/-- An address in front of all sectors is taken for one of the last sector. -/
theorem getSectorFrom_below (hpairwise : ∀ s ∈ starts, a < s) :
    getSectorFrom a k starts = k + (starts.length - 1) := by
  induction starts generalizing k with
  | nil => rfl
  | cons b starts ih =>
      cases starts with
      | nil => rfl
      | cons c starts =>
          unfold getSectorFrom
          have hb : ¬ a ≥ b := UInt32.not_le.mpr (hpairwise b List.mem_cons_self)
          rw [if_neg fun h => hb h.2, ih fun s hs => hpairwise s (List.mem_cons_of_mem _ hs)]
          simp only [List.length_cons]
          omega

theorem startOf {r : Nat} {start : UInt32} (h : addrFlashSector[r]? = some start) :
    r < 24 ∧ start.toNat = sectorBase r := by
  have hr : r < 24 := (List.getElem?_eq_some_iff.mp h).1
  have hbase := sectorBase_start r hr
  rw [h] at hbase
  exact ⟨hr, Option.some.inj hbase⟩

theorem toNat_getSector (a : UInt32) (h : getSectorFrom a 0 addrFlashSector < 24) :
    (getSector a).toNat = getSectorFrom a 0 addrFlashSector := by
  unfold getSector
  rw [UInt32.toNat_ofNat']
  exact Nat.mod_eq_of_lt (by omega)

/-- **The look-up** of an address behind the start of the flash. -/
theorem getSector_spec (h : 0x08000000 ≤ a.toNat) :
    (getSector a).toNat < 24 ∧ sectorBase (getSector a).toNat ≤ a.toNat ∧
      ((getSector a).toNat + 1 < 24 → a.toNat < sectorBase ((getSector a).toNat + 1)) := by
  have hfirst : (0x08000000 : UInt32) ≤ a := UInt32.le_iff_toNat_le.mpr h
  obtain ⟨start, hstart, hle, hnext⟩ := getSectorFrom_spec (k := 0) 0x08000000 rfl hfirst
  obtain ⟨hr, hbase⟩ := startOf hstart
  rw [toNat_getSector a hr]
  refine ⟨hr, hbase ▸ UInt32.le_iff_toNat_le.mp hle, fun hlast => ?_⟩
  have hget := List.getElem?_eq_getElem (l := addrFlashSector) hlast
  rw [← (startOf hget).2]
  exact UInt32.lt_iff_toNat_lt.mp (hnext _ hget)

/-- An address in the flash, or at its end. -/
theorem getSector_in (h : 0x08000000 ≤ a.toNat) (hend : a.toNat ≤ 0x08000000 + 1024 * 1024) :
    In sectorBase (getSector a).toNat a.toNat := by
  obtain ⟨-, hle, hlt⟩ := getSector_spec h
  refine ⟨hle, hlt ?_⟩
  by_contra hlast
  have hbase : sectorBase 13 ≤ sectorBase (getSector a).toNat := sectorBase_monotone (by omega)
  rw [sectorBase_thirteen] at hbase
  omega

/-- Every address that the memory map does not have is taken for one of the last sector. -/
theorem getSector_unknown (h : a.toNat < 0x08000000 ∨ 0x08200000 ≤ a.toNat) : (getSector a).toNat = 23 := by
  obtain hbelow | habove := h
  · have hfrom : getSectorFrom a 0 addrFlashSector = 23 := by
      refine (getSectorFrom_below fun s hs => ?_).trans rfl
      obtain ⟨k, hk⟩ := List.mem_iff_getElem?.mp hs
      have hbase : sectorBase 0 ≤ sectorBase k := sectorBase_monotone (Nat.zero_le k)
      rw [sectorBase_zero] at hbase
      have hs := (startOf hk).2
      exact UInt32.lt_iff_toNat_lt.mpr (by omega)
    rw [toNat_getSector a (by omega), hfrom]
  · obtain ⟨hr, -, hlt⟩ := getSector_spec (a := a) (by omega)
    by_contra hne
    have hbase : sectorBase ((getSector a).toNat + 1) ≤ sectorBase 24 := sectorBase_monotone (by omega)
    have h₂₄ : sectorBase 24 = 0x08200000 := by decide
    have hlast := hlt (by omega)
    omega

theorem getSector_lt (a : UInt32) : (getSector a).toNat < 24 := by
  by_cases h : 0x08000000 ≤ a.toNat
  · exact (getSector_spec h).1
  · have hlast := getSector_unknown (.inl (Nat.not_le.mp h))
    omega

end Lookup

/-! ## Erasing -/

section Erase

variable {erase : EraseInit → Bool} {addr size : UInt32}

/-- The sectors from the one of the first address to the one of the last address are erased. -/
theorem erases_iff (index : UInt32) : (eraseInit addr size).Erases index ↔
    (getSector addr).toNat ≤ index.toNat ∧ index.toNat ≤ (getSector (addr + size - 1)).toNat := by
  have hend : (eraseInit addr size).nbSectors + (eraseInit addr size).sector =
      getSector (addr + size - 1) + 1 := by
    show getSector (addr + size - 1) - getSector addr + 1 + getSector addr = _
    rw [UInt32.add_assoc, UInt32.add_comm 1, ← UInt32.add_assoc, UInt32.sub_add_cancel]
  have hlt := getSector_lt (addr + size - 1)
  have hone : (1 : UInt32).toNat = 1 := rfl
  unfold EraseInit.Erases
  rw [hend, UInt32.le_iff_toNat_le, UInt32.lt_iff_toNat_lt, UInt32.toNat_add, hone,
    Nat.mod_eq_of_lt (by omega)]
  show (getSector addr).toNat ≤ _ ∧ _ ↔ _
  omega

/-- The range is not refused. -/
theorem end_le (h : (stm32FlashErase erase addr size).1 ≠ -10) :
    (addr.toNat + size.toNat) % 4294967296 ≤ 0x08100000 ∧
      (stm32FlashErase erase addr size).2 = some (eraseInit addr size) := by
  unfold stm32FlashErase at h ⊢
  by_cases hgt : addr + size > endAddress
  · rw [if_pos hgt] at h
    exact absurd rfl h
  · rw [if_neg hgt]
    have hle := UInt32.le_iff_toNat_le.mp (UInt32.not_lt.mp hgt)
    rw [UInt32.toNat_add] at hle
    exact ⟨hle, rfl⟩

theorem last_toNat (addr size : UInt32) : (addr + size - 1).toNat =
    (addr.toNat + size.toNat + 4294967295) % 4294967296 := by
  have hone : (1 : UInt32).toNat = 1 := rfl
  rw [UInt32.toNat_sub, UInt32.toNat_add, hone]
  omega

/-- **An empty range** is erased as one of no sectors only at the start of a sector that is not the first. -/
theorem erase_empty (hend : addr.toNat ≤ 0x08100000) :
    (getSector (addr + 0 - 1)).toNat < (getSector addr).toNat ↔
      ∃ k, 0 < k ∧ k ≤ 12 ∧ addr.toNat = sectorBase k := by
  have hlast := last_toNat addr 0
  have hzero : (0 : UInt32).toNat = 0 := rfl
  have hsize : addr.toNat < 4294967296 := addr.toNat_lt
  rw [hzero] at hlast
  by_cases hstart : 0x08000000 < addr.toNat
  · have hprev : (addr + 0 - 1).toNat + 1 = addr.toNat := by omega
    have hin := getSector_in (a := addr) (by omega) hend
    have hin' := getSector_in (a := addr + 0 - 1) (by omega) (by omega)
    rw [← hprev] at hin
    have hiff := hin'.lt_iff sectorBase_monotone hin
    rw [hprev] at hin hiff
    rw [hiff]
    constructor
    · intro heq
      refine ⟨(getSector addr).toNat, Nat.pos_of_ne_zero fun hfirst => ?_, ?_, heq⟩
      · rw [hfirst, sectorBase_zero] at heq
        omega
      · by_contra hgt
        have hbase : sectorBase 13 ≤ sectorBase (getSector addr).toNat := sectorBase_monotone (by omega)
        rw [sectorBase_thirteen] at hbase
        omega
    · rintro ⟨k, -, hk, heq⟩
      have hink : In sectorBase k addr.toNat := ⟨le_of_eq heq.symm, heq ▸ sectorBase_lt k (by omega)⟩
      have h₁ := hin.le_of_le sectorBase_monotone hink (le_refl _)
      have h₂ := hink.le_of_le sectorBase_monotone hin (le_refl _)
      rw [heq, le_antisymm h₁ h₂]
  · -- The address in front of the range is none of the flash.
    have hunknown := getSector_unknown (a := addr + 0 - 1) (by omega)
    have hlt := getSector_lt addr
    refine iff_of_false (by omega) ?_
    rintro ⟨k, hpos, -, heq⟩
    have hbase : sectorBase 1 ≤ sectorBase k := sectorBase_monotone hpos
    have h₁ : sectorBase 1 = 0x08004000 := by decide
    omega

/-- **A range of bytes** that is in the flash touches the sectors that are erased. -/
theorem erase_touched (hstart : 0x08000000 ≤ addr.toNat) (hend : addr.toNat + size.toNat ≤ 0x08100000)
    (hsize : 0 < size.toNat) (index : UInt32) :
    ((getSector addr).toNat ≤ index.toNat ∧ index.toNat ≤ (getSector (addr + size - 1)).toNat) ↔
      ∃ x, addr.toNat ≤ x ∧ x < addr.toNat + size.toNat ∧ In sectorBase index.toNat x := by
  have hlast := last_toNat addr size
  have hlastEq : (addr + size - 1).toNat + 1 = addr.toNat + size.toNat := by omega
  have hin := getSector_in (a := addr) hstart (by omega)
  have hin' := getSector_in (a := addr + size - 1) (by omega) (by omega)
  have htouched := touched_iff sectorBase_monotone hin hin' (by omega) (k := index.toNat)
    (fun k hk => sectorBase_lt k (hk.trans (getSector_lt _)))
  rw [← htouched, ← hlastEq]
  simp only [Nat.lt_succ_iff]

end Erase

/-- **Erasing**, exactly where it hits the sectors of the range. -/
theorem flash_erase_iff (erase : EraseInit → Bool) (addr size : UInt32)
    (h : (stm32FlashErase erase addr size).1 ≠ -10) : ErasesRange erase addr size ↔ EraseSafe addr size := by
  obtain ⟨hend, hinit⟩ := end_le h
  have hiff : ErasesRange erase addr size ↔
      (∀ x, addr.toNat ≤ x → x < addr.toNat + size.toNat → InFlash x) ∧
      ∀ index : UInt32, ((getSector addr).toNat ≤ index.toNat ∧
          index.toNat ≤ (getSector (addr + size - 1)).toNat) ↔
        ∃ x, addr.toNat ≤ x ∧ x < addr.toNat + size.toNat ∧ In sectorBase index.toNat x := by
    unfold ErasesRange
    refine and_congr Iff.rfl ⟨?_, fun htouched => ⟨_, hinit, fun index => ?_⟩⟩
    · rintro ⟨init, hsome, htouched⟩ index
      cases hinit.symm.trans hsome
      rw [← erases_iff, htouched]
    · rw [erases_iff, htouched]
  rw [hiff]
  unfold EraseSafe
  by_cases hzero : size = 0
  · have hsize : size.toNat = 0 := congrArg UInt32.toNat hzero
    have haddr := addr.toNat_lt
    rw [if_pos hzero, ← erase_empty (by omega), hsize, hzero]
    constructor
    · rintro ⟨-, htouched⟩
      by_contra hle
      obtain ⟨x, hx, hx', -⟩ := (htouched (getSector addr)).mp ⟨le_refl _, Nat.not_lt.mp hle⟩
      omega
    · intro hlt
      refine ⟨fun x hx hx' => absurd hx' (by omega), fun index => iff_of_false (by omega) ?_⟩
      rintro ⟨x, hx, hx', -⟩
      omega
  · have hsize : 0 < size.toNat :=
      Nat.pos_of_ne_zero fun h => hzero (UInt32.toNat_inj.mp h)
    rw [if_neg hzero]
    constructor
    · rintro ⟨hin, -⟩
      have hfirst := hin addr.toNat (le_refl _) (by omega)
      have hlast := hin (addr.toNat + size.toNat - 1) (by omega) (by omega)
      unfold InFlash at hfirst hlast
      omega
    · rintro ⟨hstart, hend⟩
      refine ⟨fun x hx hx' => ⟨by omega, by omega⟩, ?_⟩
      exact erase_touched hstart hend hsize

/-- Two bytes on both sides of the end of the first sector. -/
theorem flash_erase_two : ErasesRange (fun _ => true) 0x08003fff 2 :=
  (flash_erase_iff (fun _ => true) 0x08003fff 2 (by decide +kernel)).mpr
    (by
      rw [EraseSafe, if_neg (by decide)]
      exact ⟨by decide, by decide⟩)

/-- For an empty range at the start of the flash all sectors are erased. -/
theorem flash_erase_empty : ¬ ∀ (erase : EraseInit → Bool) (addr size : UInt32),
    (stm32FlashErase erase addr size).1 ≠ -10 → ErasesRange erase addr size := by
  intro hclaim
  obtain ⟨-, init, hinit, htouched⟩ := hclaim (fun _ => true) 0x08000000 0 (by decide +kernel)
  have hinit' : (stm32FlashErase (fun _ => true) 0x08000000 0).2 = some ⟨0, 24⟩ := by decide +kernel
  cases hinit'.symm.trans hinit
  obtain ⟨x, hx, hx', -⟩ := (htouched 0).mp ⟨by decide, by decide⟩
  exact absurd (lt_of_le_of_lt hx hx') (lt_irrefl _)

end RTThread.Flash
