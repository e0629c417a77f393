import Linux95.Memory.BootstrapLayout
import Linux95.Memory.Queries
import Mathlib.Data.List.Nodup

/-! A walk of the tables that `prepare_bootstrap` leaves behind. -/

namespace Linux95.Memory
open Base LinkedTables
open User (hhdmBase)

def PageInfo.translation (info : PageInfo) : Option Nat := if info.present then some info.physical.toNat else none

namespace Bootstrap

section Entries
variable {pool : Pool} {memory : PhysicalMemory} {va table : Word} {m q : Nat} {rights : Rights}

theorem queryPml4_child (hm : m < poolPages) (h : memory table (pml4Index va) = childEntry pool m) :
    ∃ rights, queryPml4 memory va table = queryPdpt memory va rights (poolPage pool m) := by
  obtain ⟨hpresent, -, hmask⟩ := @childEntry_has pool _ hm
  unfold queryPml4
  dsimp only
  rw [h, hpresent, hmask]
  exact ⟨_, rfl⟩

theorem queryPdpt_child (hm : m < poolPages) (h : memory table (pdptIndex va) = childEntry pool m) :
    ∃ rights', queryPdpt memory va rights table = queryPd memory va rights' (poolPage pool m) := by
  obtain ⟨hpresent, hhuge, hmask⟩ := @childEntry_has pool _ hm
  unfold queryPdpt
  dsimp only
  rw [h, hpresent, hhuge, hmask]
  exact ⟨_, rfl⟩

theorem huge_mask (hq : q < 32768) :
    BitVec.ofNat 64 (q * hugePageSize) &&& twoMiBAddressMask = BitVec.ofNat 64 (q * hugePageSize) := by
  generalize hx : BitVec.ofNat 64 (q * hugePageSize) = x
  have hlow : x &&& 0x1FFFFF#64 = 0#64 := by
    rw [← hx]
    exact huge_aligned
  have hsmall : x &&& 0xFFFFFFFFFFFFF#64 = x := by
    apply BitVec.eq_of_toNat_eq
    have hvalue : x.toNat < 2 ^ 52 := by
      rw [← hx, BitVec.toNat_ofNat]
      unfold hugePageSize
      omega
    rw [BitVec.toNat_and]
    exact (Nat.and_two_pow_sub_one_eq_mod x.toNat 52).trans (Nat.mod_eq_of_lt hvalue)
  have hbits : (0xFFFFFFFFFFFFF#64 : Word) = twoMiBAddressMask ||| 0x1FFFFF#64 := by decide
  calc x &&& twoMiBAddressMask = x &&& twoMiBAddressMask ||| x &&& 0x1FFFFF#64 := by rw [hlow, BitVec.or_zero]
    _ = x := by rw [← BitVec.and_or_distrib_left, ← hbits, hsmall]

theorem hugeEntry_has (hq : q < 32768) : has (hugeEntry q) pagePresent = true ∧ has (hugeEntry q) pageHuge = true ∧
    hugeEntry q &&& twoMiBAddressMask = BitVec.ofNat 64 (q * hugePageSize) := by
  have hflags : hugeEntry q = BitVec.ofNat 64 (q * hugePageSize) ||| 0x83#64 := by
    unfold hugeEntry
    rw [huge_mask hq, BitVec.or_assoc, BitVec.or_assoc]
    rfl
  have hmask : BitVec.ofNat 64 (q * hugePageSize) &&& addressMask = BitVec.ofNat 64 (q * hugePageSize) := by
    rw [← huge_mask hq, BitVec.and_assoc, show twoMiBAddressMask &&& addressMask = twoMiBAddressMask by decide]
  rw [hflags, has_or hmask (by decide), has_or hmask (by decide), BitVec.and_or_distrib_right, huge_mask hq,
    show 0x83#64 &&& twoMiBAddressMask = 0#64 by decide, BitVec.or_zero]
  exact ⟨by decide, by decide, rfl⟩

theorem queryPd_huge (hq : q < 32768) (h : memory table (pdIndex va) = hugeEntry q) :
    (queryPd memory va rights table).2.present = true ∧
    (queryPd memory va rights table).2.physical.toNat = q * hugePageSize + va.toNat % hugePageSize := by
  obtain ⟨hpresent, hhuge, hmask⟩ := hugeEntry_has hq
  have hphysical : (hugeEntry q &&& twoMiBAddressMask ||| va &&& 0x1FFFFF#64).toNat =
      q * hugePageSize + va.toNat % hugePageSize := by
    have hoffset : (va &&& 0x1FFFFF#64).toNat = va.toNat % hugePageSize := by
      rw [BitVec.toNat_and]
      exact Nat.and_two_pow_sub_one_eq_mod va.toNat 21
    have hdisjoint : BitVec.ofNat 64 (q * hugePageSize) &&& (va &&& 0x1FFFFF#64) = 0#64 := by
      rw [BitVec.and_comm va, ← BitVec.and_assoc, huge_aligned, BitVec.zero_and]
    rw [hmask, ← BitVec.add_eq_or_of_and_eq_zero _ _ hdisjoint, BitVec.toNat_add, hoffset, BitVec.toNat_ofNat]
    unfold hugePageSize
    omega
  unfold queryPd
  dsimp only
  rw [h, hpresent, hhuge]
  exact ⟨rfl, hphysical⟩

end Entries

def bootstrapPhysical (limit va : Nat) : Option Nat :=
  if va < hugePageSize then some va
  else if hhdmBase.toNat ≤ va ∧ va < hhdmBase.toNat + limit then some (va - hhdmBase.toNat)
  else if kernelRegionBase.toNat ≤ va ∧ va < kernelRegionBase.toNat + hugePageSize then some (va - kernelRegionBase.toNat)
  else none

section Walk
variable {pool : Pool} {b : Bootstrap} {j limit : Nat} {va : Word}

theorem poolPage_aligned (pool : Pool) : isPageAligned (poolPage pool 0) = true :=
  Allocator.isPageAligned_of_mask (poolPage_mask pool (by decide))

theorem queryPd_huge_translation {memory : PhysicalMemory} {table : Word} {rights : Rights} {q : Nat} (hq : q < 32768)
    (h : memory table (pdIndex va) = hugeEntry q) :
    (queryPd memory va rights table).2.translation = some (q * hugePageSize + va.toNat % hugePageSize) := by
  obtain ⟨hpresent, hphysical⟩ := @queryPd_huge memory va table q rights hq h
  unfold PageInfo.translation
  rw [if_pos hpresent, hphysical]

theorem walk_low (h : Holds pool b (tableCount j) (layout pool j)) (hva : va.toNat < 2 ^ 47) :
    (queryPage b.memory (poolPage pool 0) va).2.translation = bootstrapPhysical limit va.toNat := by
  have hcount : 5 ≤ tableCount j := by
    unfold tableCount
    split <;> omega
  have hexpected : bootstrapPhysical limit va.toNat = if va.toNat < hugePageSize then some va.toNat else none := by
    unfold bootstrapPhysical
    rw [show hhdmBase.toNat = 0xFFFF800000000000 from rfl, show kernelRegionBase.toNat = 0xFFFFFFFF80000000 from rfl,
      if_neg (show ¬(0xFFFF800000000000 ≤ va.toNat ∧ va.toNat < 0xFFFF800000000000 + limit) by omega),
      if_neg (show ¬(0xFFFFFFFF80000000 ≤ va.toNat ∧ va.toNat < 0xFFFFFFFF80000000 + hugePageSize) by omega)]
  have hpml4 : (pml4Index va).val = va.toNat / 2 ^ 39 % 512 := tableIndex_val 39 va
  have hpdpt : (pdptIndex va).val = va.toNat / 2 ^ 30 % 512 := tableIndex_val 30 va
  have hpd : (pdIndex va).val = va.toNat / 2 ^ 21 % 512 := tableIndex_val 21 va
  rw [queryPage_aligned (poolPage_aligned pool), hexpected]
  have hroot := congrFun (h.memory 0 (by omega)) (pml4Index va)
  rw [layout_root] at hroot
  by_cases h₁ : (pml4Index va).val = 0
  · rw [if_pos h₁] at hroot
    obtain ⟨rights, heq⟩ := queryPml4_child (show 1 < poolPages by decide) hroot
    rw [heq]
    have hentry : b.memory (poolPage pool 1) (pdptIndex va) = if (pdptIndex va).val = 0 then childEntry pool 2 else 0#64 :=
      congrFun (h.memory 1 (by omega)) (pdptIndex va)
    by_cases h₂ : (pdptIndex va).val = 0
    · rw [if_pos h₂] at hentry
      obtain ⟨rights', heq⟩ := @queryPdpt_child pool b.memory va _ 2 rights (by decide) hentry
      rw [heq]
      have hentry : b.memory (poolPage pool 2) (pdIndex va) = if (pdIndex va).val = 0 then hugeEntry 0 else 0#64 :=
        congrFun (h.memory 2 (by omega)) (pdIndex va)
      by_cases h₃ : (pdIndex va).val = 0
      · rw [if_pos h₃] at hentry
        rw [queryPd_huge_translation (by decide) hentry]
        unfold hugePageSize
        rw [if_pos (by omega), Nat.zero_mul, Nat.zero_add, Nat.mod_eq_of_lt (by omega)]
      · rw [if_neg h₃] at hentry
        rw [queryPd_zero hentry]
        unfold hugePageSize
        rw [if_neg (by omega)]
        rfl
    · rw [if_neg h₂] at hentry
      rw [queryPdpt_zero hentry]
      unfold hugePageSize
      rw [if_neg (by omega)]
      rfl
  · rw [if_neg h₁, if_neg (by omega), if_neg (by omega)] at hroot
    rw [queryPml4_zero hroot]
    unfold hugePageSize
    rw [if_neg (by omega)]
    rfl

theorem walk_direct (h : Holds pool b (tableCount j) (layout pool j)) (hj : 0 < j) (hle : j ≤ 32768)
    (hva : va.toNat / 2 ^ 39 = 2 ^ 25 - 256) :
    (queryPage b.memory (poolPage pool 0) va).2.translation = bootstrapPhysical (j * hugePageSize) va.toNat := by
  have hcount : tableCount j = 6 + (j + 511) / 512 := if_neg (by omega)
  have hexpected : bootstrapPhysical (j * hugePageSize) va.toNat =
      if va.toNat < 0xFFFF800000000000 + j * hugePageSize then some (va.toNat - 0xFFFF800000000000) else none := by
    unfold bootstrapPhysical hugePageSize
    rw [show hhdmBase.toNat = 0xFFFF800000000000 from rfl, show kernelRegionBase.toNat = 0xFFFFFFFF80000000 from rfl,
      if_neg (by omega)]
    by_cases hin : va.toNat < 0xFFFF800000000000 + j * (2 * 1024 * 1024)
    · rw [if_pos ⟨by omega, hin⟩, if_pos hin]
    · rw [if_neg (fun hand => hin hand.2), if_neg (by omega), if_neg hin]
  have hpml4 : (pml4Index va).val = va.toNat / 2 ^ 39 % 512 := tableIndex_val 39 va
  have hpdpt : (pdptIndex va).val = va.toNat / 2 ^ 30 % 512 := tableIndex_val 30 va
  have hpd : (pdIndex va).val = va.toNat / 2 ^ 21 % 512 := tableIndex_val 21 va
  have hroot := congrFun (h.memory 0 (by omega)) (pml4Index va)
  rw [layout_root, if_neg (by omega), if_neg (by omega), if_pos ⟨by omega, hj⟩] at hroot
  obtain ⟨rights, heq⟩ := queryPml4_child (show 5 < poolPages by decide) hroot
  rw [queryPage_aligned (poolPage_aligned pool), heq, hexpected]
  have hlinks := congrFun (h.memory 5 (by omega)) (pdptIndex va)
  rw [layout_links] at hlinks
  by_cases hg : (pdptIndex va).val < (j + 511) / 512
  · have hpage : 6 + (pdptIndex va).val < poolPages := by
      unfold poolPages
      omega
    rw [if_pos hg] at hlinks
    obtain ⟨rights', heq⟩ := @queryPdpt_child pool b.memory va _ _ rights hpage hlinks
    have hentry := congrFun (h.memory (6 + (pdptIndex va).val) (by omega)) (pdIndex va)
    rw [layout_directory] at hentry
    rw [heq]
    by_cases hq : 512 * (pdptIndex va).val + (pdIndex va).val < j
    · rw [if_pos hq] at hentry
      rw [queryPd_huge_translation (by omega) hentry]
      unfold hugePageSize
      rw [if_pos (by omega)]
      refine congrArg some ?_
      omega
    · rw [if_neg hq] at hentry
      rw [queryPd_zero hentry]
      unfold hugePageSize
      rw [if_neg (by omega)]
      rfl
  · rw [if_neg hg] at hlinks
    rw [queryPdpt_zero hlinks]
    unfold hugePageSize
    rw [if_neg (by omega)]
    rfl

theorem walk_kernel (h : Holds pool b (tableCount j) (layout pool j)) (hle : j ≤ 32768)
    (hva : va.toNat / 2 ^ 39 = 2 ^ 25 - 1) :
    (queryPage b.memory (poolPage pool 0) va).2.translation = bootstrapPhysical (j * hugePageSize) va.toNat := by
  have hcount : 5 ≤ tableCount j := by
    unfold tableCount
    split <;> omega
  have hexpected : bootstrapPhysical (j * hugePageSize) va.toNat =
      if 0xFFFFFFFF80000000 ≤ va.toNat ∧ va.toNat < 0xFFFFFFFF80000000 + hugePageSize
      then some (va.toNat - 0xFFFFFFFF80000000) else none := by
    unfold bootstrapPhysical
    rw [show hhdmBase.toNat = 0xFFFF800000000000 from rfl, show kernelRegionBase.toNat = 0xFFFFFFFF80000000 from rfl]
    unfold hugePageSize
    rw [if_neg (by omega), if_neg (by omega)]
  have hpml4 : (pml4Index va).val = va.toNat / 2 ^ 39 % 512 := tableIndex_val 39 va
  have hpdpt : (pdptIndex va).val = va.toNat / 2 ^ 30 % 512 := tableIndex_val 30 va
  have hpd : (pdIndex va).val = va.toNat / 2 ^ 21 % 512 := tableIndex_val 21 va
  have hroot := congrFun (h.memory 0 (by omega)) (pml4Index va)
  rw [layout_root, if_neg (by omega), if_pos (by omega)] at hroot
  obtain ⟨rights, heq⟩ := queryPml4_child (show 3 < poolPages by decide) hroot
  rw [queryPage_aligned (poolPage_aligned pool), heq, hexpected]
  have hentry : b.memory (poolPage pool 3) (pdptIndex va) = if (pdptIndex va).val = 510 then childEntry pool 4 else 0#64 :=
    congrFun (h.memory 3 (by omega)) (pdptIndex va)
  by_cases h₂ : (pdptIndex va).val = 510
  · rw [if_pos h₂] at hentry
    obtain ⟨rights', heq⟩ := @queryPdpt_child pool b.memory va _ 4 rights (by decide) hentry
    rw [heq]
    have hentry : b.memory (poolPage pool 4) (pdIndex va) = if (pdIndex va).val = 0 then hugeEntry 0 else 0#64 :=
      congrFun (h.memory 4 (by omega)) (pdIndex va)
    by_cases h₃ : (pdIndex va).val = 0
    · rw [if_pos h₃] at hentry
      rw [queryPd_huge_translation (by decide) hentry]
      unfold hugePageSize
      rw [if_pos (by omega)]
      refine congrArg some ?_
      omega
    · rw [if_neg h₃] at hentry
      rw [queryPd_zero hentry]
      unfold hugePageSize
      rw [if_neg (by omega)]
      rfl
  · rw [if_neg h₂] at hentry
    rw [queryPdpt_zero hentry]
    unfold hugePageSize
    rw [if_neg (by omega)]
    rfl

theorem walk (h : Holds pool b (tableCount j) (layout pool j)) (hj : 0 < j) (hle : j ≤ 32768)
    (hva : va.toNat < 2 ^ 47 ∨ 2 ^ 64 - 2 ^ 47 ≤ va.toNat) :
    (queryPage b.memory (poolPage pool 0) va).2.translation = bootstrapPhysical (j * hugePageSize) va.toNat := by
  rcases hva with hlow | hhigh
  · exact walk_low h hlow
  have hlt := va.isLt
  by_cases hdirect : va.toNat / 2 ^ 39 = 2 ^ 25 - 256
  · exact walk_direct h hj hle hdirect
  by_cases hkernel : va.toNat / 2 ^ 39 = 2 ^ 25 - 1
  · exact walk_kernel h hle hkernel
  have hexpected : bootstrapPhysical (j * hugePageSize) va.toNat = none := by
    unfold bootstrapPhysical
    rw [show hhdmBase.toNat = 0xFFFF800000000000 from rfl, show kernelRegionBase.toNat = 0xFFFFFFFF80000000 from rfl]
    unfold hugePageSize
    rw [if_neg (by omega), if_neg (by omega), if_neg (by omega)]
  have hpml4 : (pml4Index va).val = va.toNat / 2 ^ 39 % 512 := tableIndex_val 39 va
  have hroot := congrFun (h.memory 0 (by unfold tableCount; split <;> omega)) (pml4Index va)
  rw [layout_root, if_neg (by omega), if_neg (by omega), if_neg (by omega)] at hroot
  rw [queryPage_aligned (poolPage_aligned pool), hexpected, queryPml4_zero hroot]
  rfl

theorem walk_hhdm (h : Holds pool b (tableCount j) (layout pool j)) (hj : 0 < j) (hle : j ≤ 32768) {p : Nat}
    (hp : p < j * hugePageSize) :
    (queryPage b.memory (poolPage pool 0) (hhdmBase + BitVec.ofNat 64 p)).2.translation = some p := by
  have hdirect : hhdmBase.toNat = 0xFFFF800000000000 := rfl
  have hva : (hhdmBase + BitVec.ofNat 64 p).toNat = hhdmBase.toNat + p := by
    unfold hugePageSize at hp
    rw [BitVec.toNat_add, BitVec.toNat_ofNat]
    omega
  rw [walk h hj hle (Or.inr (by rw [hva, hdirect]; omega)), hva]
  unfold bootstrapPhysical
  rw [if_neg (by rw [hdirect]; unfold hugePageSize; omega), if_pos (by omega), Nat.add_sub_cancel_left]

end Walk

theorem alignUp_huge (value : Nat) : alignUp value hugePageSize =
    if value > uint64Max - (hugePageSize - 1) then uint64Max / hugePageSize * hugePageSize
    else (value + (hugePageSize - 1)) / hugePageSize * hugePageSize := by
  have hne : hugePageSize ≠ 0 := by decide
  unfold alignUp alignDown
  dsimp only
  rw [if_neg hne, if_neg hne, if_neg hne]

theorem prepareBootstrap_holds (pool : Pool) (b : Bootstrap) {boot : BootInfo}
    (hmaximum : maximumUsablePhysicalAddress boot ≠ 0)
    (hlimit : maximumUsablePhysicalAddress boot ≤ bootstrapHhdmLimit) : ∃ j b', 0 < j ∧ j ≤ 32768 ∧
    b.prepareBootstrap pool boot = (true, b') ∧ b'.bootstrapCr3 = poolPage pool 0 ∧ b'.hhdmLimit = j * hugePageSize ∧
    maximumUsablePhysicalAddress boot ≤ j * hugePageSize ∧ Holds pool b' (tableCount j) (layout pool j) := by
  -- the direct map ends where usable memory does, at a multiple of 2 MiB
  have hhuge : bootstrapHhdmLimit = 32768 * hugePageSize := by decide
  generalize hm : maximumUsablePhysicalAddress boot = maximum at hmaximum hlimit
  have hrounded : alignUp maximum hugePageSize = (maximum + (hugePageSize - 1)) / hugePageSize * hugePageSize := by
    rw [alignUp_huge, if_neg]
    unfold uint64Max
    unfold hugePageSize at *
    omega
  generalize hj : (maximum + (hugePageSize - 1)) / hugePageSize = j at hrounded
  have hbounds : 0 < j ∧ j ≤ 32768 ∧ maximum ≤ j * hugePageSize := by
    rw [← hj]
    unfold hugePageSize at *
    omega
  obtain ⟨hpositive, hle, hcovers⟩ := hbounds
  obtain ⟨b₁, b₂, b₃, heq₁, heq₂, heq₃, hstart⟩ := start_holds pool b.memory 0#64 0
  obtain ⟨b₄, heq₄, hdone⟩ := @Holds.mapDirect pool b₃ 0 hstart j (by omega)
  rw [Nat.zero_add] at heq₄ hdone
  rw [Nat.zero_mul] at heq₄
  have hroom : ¬(j * hugePageSize = uint64Max ∨ j * hugePageSize > bootstrapHhdmLimit) := by
    unfold hugePageSize at *
    unfold uint64Max
    omega
  refine ⟨j, { b₄ with bootstrapCr3 := poolPage pool 0, hhdmLimit := j * hugePageSize }, hpositive, hle, ?_, rfl, rfl,
    hcovers, hdone.poolNext, hdone.taken, hdone.memory, hdone.fits⟩
  unfold prepareBootstrap
  dsimp only
  rw [hm, if_neg hmaximum, if_neg (Nat.not_lt.mpr hlimit), hrounded, if_neg hroom, heq₁]
  dsimp only
  rw [if_neg (poolPage_ne_zero pool (by decide)), heq₂]
  dsimp only
  rw [Bool.not_true, if_neg Bool.false_ne_true, heq₃]
  dsimp only
  rw [Bool.not_true, if_neg Bool.false_ne_true, heq₄]
  rfl

/-- The tables the kernel starts with, for any memory map that ends at 64 GiB or below. -/
theorem bootstrap_maps (pool : Pool) (b : Bootstrap) (boot : BootInfo) (hvalid : boot.valid = true)
    (hsome : ∃ entry ∈ boot.entries, entry.usable = true)
    (hlimit : ∀ entry ∈ boot.entries, entry.usable = true →
      (entry.limit + (hugePageSize - 1)) / hugePageSize * hugePageSize ≤ bootstrapHhdmLimit) :
    let b' := (b.prepareBootstrap pool boot).2
    let translate := fun va => (queryPage b'.memory b'.bootstrapCr3 va).2.translation
    (b.prepareBootstrap pool boot).1 = true ∧
    (b'.taken.length ≤ poolPages ∧ b'.taken.Nodup ∧
      ∀ page ∈ b'.taken, isPageAligned page = true ∧ pool.start ≤ page ∧ page.toNat + pageSize ≤ pool.stop.toNat) ∧
    (∀ p < b'.hhdmLimit, translate (hhdmBase + BitVec.ofNat 64 p) = some p) ∧
    (∀ p < hugePageSize, translate (BitVec.ofNat 64 p) = some p) ∧
    (∀ p < hugePageSize, translate (kernelRegionBase + BitVec.ofNat 64 p) = some p) ∧
    (∀ va, va.toNat < 2 ^ 47 ∨ 2 ^ 64 - 2 ^ 47 ≤ va.toNat → translate va ≠ none →
      va.toNat < hugePageSize ∨ (∃ p < b'.hhdmLimit, va = hhdmBase + BitVec.ofNat 64 p) ∨
      ∃ p < hugePageSize, va = kernelRegionBase + BitVec.ofNat 64 p) ∧
    ∀ entry ∈ boot.entries, entry.usable = true → entry.limit ≤ b'.hhdmLimit := by
  have hends : ∀ entry ∈ boot.entries, entry.usable = true → entry.limit ≤ bootstrapHhdmLimit := by
    intro entry hmem husable
    have hle := hlimit entry hmem husable
    unfold hugePageSize at hle
    omega
  obtain ⟨hmaximum, hle⟩ := maximum_le hvalid hsome hends
  obtain ⟨j, b', hpositive, hj, heq, hroot, hhhdm, hcovers, hholds⟩ := prepareBootstrap_holds pool b hmaximum hle
  have hlength : tableCount j ≤ poolPages := hholds.fits
  rw [heq]
  dsimp only
  rw [hroot, hhhdm, hholds.taken]
  -- no sum of a base and an offset below wraps
  have hregion : ∀ base : Word, ∀ p : Nat, base.toNat + p < 2 ^ 64 →
      (base + BitVec.ofNat 64 p).toNat = base.toNat + p := by
    intro base p hlt
    rw [BitVec.toNat_add, BitVec.toNat_ofNat]
    omega
  have hdirect : hhdmBase.toNat = 0xFFFF800000000000 := rfl
  have hkernel : kernelRegionBase.toNat = 0xFFFFFFFF80000000 := rfl
  refine ⟨rfl, ⟨?_, ?_, ?_⟩, ?_, ?_, ?_, ?_, ?_⟩
  · rw [List.length_map, List.length_range]
    exact hlength
  · refine List.Nodup.map_on (fun k hk m hm h => ?_) List.nodup_range
    exact poolPage_inj ((List.mem_range.mp hk).trans_le hlength) ((List.mem_range.mp hm).trans_le hlength) h
  · intro page hmem
    obtain ⟨k, hk, rfl⟩ := List.mem_map.mp hmem
    have hk : k < poolPages := (List.mem_range.mp hk).trans_le hlength
    have hpage := poolPage_toNat pool hk
    have hhigh := pool.high
    have hstop : pool.stop.toNat = pool.start.toNat + poolPages * pageSize := by
      unfold Pool.stop
      rw [hregion _ _ (by omega)]
    refine ⟨Allocator.isPageAligned_of_mask (poolPage_mask pool hk), ?_, ?_⟩
    · rw [BitVec.le_def, hpage]
      exact Nat.le_add_right _ _
    · rw [hpage, hstop]
      unfold poolPages pageSize at *
      omega
  · exact fun p hp => walk_hhdm hholds hpositive hj hp
  · intro p hp
    have hva : (BitVec.ofNat 64 p).toNat = p := by
      rw [BitVec.toNat_ofNat]
      unfold hugePageSize at hp
      omega
    rw [walk hholds hpositive hj (Or.inl (by rw [hva]; unfold hugePageSize at hp; omega)), hva]
    exact if_pos hp
  · intro p hp
    have hva := hregion kernelRegionBase p (by rw [hkernel]; unfold hugePageSize at hp; omega)
    rw [walk hholds hpositive hj (Or.inr (by rw [hva, hkernel]; omega)), hva]
    unfold bootstrapPhysical
    rw [if_neg (by rw [hkernel]; unfold hugePageSize; omega), if_neg (by rw [hkernel, hdirect]; unfold hugePageSize; omega),
      if_pos (by omega), Nat.add_sub_cancel_left]
  · intro va hcanonical hmapped
    rw [walk hholds hpositive hj hcanonical] at hmapped
    unfold bootstrapPhysical at hmapped
    have hlt := va.isLt
    split_ifs at hmapped with hlow hhhdm' hregion'
    · exact Or.inl hlow
    · refine Or.inr (Or.inl ⟨va.toNat - hhdmBase.toNat, by omega, BitVec.eq_of_toNat_eq ?_⟩)
      rw [hregion _ _ (by omega)]
      omega
    · refine Or.inr (Or.inr ⟨va.toNat - kernelRegionBase.toNat, by omega, BitVec.eq_of_toNat_eq ?_⟩)
      rw [hregion _ _ (by omega)]
      omega
    · exact absurd rfl hmapped
  · intro entry hmem husable
    have hunsaturated : maximumUsablePhysicalAddress boot < uint64Max :=
      Nat.lt_of_le_of_lt hle (by decide)
    exact (usable_end_le hmaximum hunsaturated hmem husable).trans hcovers

theorem bootstrap_maps_two_megabytes :
    let pool : Pool := ⟨0x180000#64, by decide, by decide, by decide⟩
    let boot : BootInfo := ⟨bootInfoMagic, 1#32, 0x500#64, fun _ => ⟨0#64, 0x200000#64, 1#32⟩⟩
    ((⟨fun _ _ => 0#64, 0#64, [], 0#64, 0⟩ : Bootstrap).prepareBootstrap pool boot).1 = true := by
  intro pool boot
  have hentries : boot.entries = [⟨0#64, 0x200000#64, 1#32⟩] := rfl
  refine (bootstrap_maps pool _ boot (by decide) ?_ ?_).1
  · rw [hentries]
    exact ⟨_, List.mem_singleton_self _, by decide⟩
  · rw [hentries]
    intro entry hmem _
    obtain rfl := List.mem_singleton.mp hmem
    decide

end Bootstrap

end Linux95.Memory
