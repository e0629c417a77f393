import Linux95.Fat32.Operations

/-! Address arithmetic of a volume that `parse_bpb` accepts: no 32-bit computation wraps, FAT
entries and data clusters have addresses of their own, and the two areas do not meet. -/

namespace Linux95.Fat32
open Write

theorem le16_lt (p : Bytes) (o : Nat) : le16 p o < 2 ^ 16 := by
  have h0 := UInt8.toNat_lt (p o)
  have h1 := UInt8.toNat_lt (p (o + 1))
  unfold le16
  omega

theorem le32_lt (p : Bytes) (o : Nat) : le32 p o < 2 ^ 32 := by
  have h0 := UInt8.toNat_lt (p o)
  have h1 := UInt8.toNat_lt (p (o + 1))
  have h2 := UInt8.toNat_lt (p (o + 2))
  have h3 := UInt8.toNat_lt (p (o + 3))
  unfold le32
  omega

theorem checkedAddU32_eq {a b : Nat} (h : a + b < 2 ^ 32) : checkedAddU32 a b = some (a + b) := by
  unfold checkedAddU32
  rw [if_neg (by omega), Nat.mod_eq_of_lt h]

theorem checkedMulU32_eq {a b : Nat} (h : a * b < 2 ^ 32) : checkedMulU32 a b = some (a * b) := by
  unfold checkedMulU32
  rw [if_neg, Nat.mod_eq_of_lt h]
  rintro ⟨ha, hb⟩
  have := (Nat.div_lt_iff_lt_mul (Nat.pos_of_ne_zero ha)).mp hb
  rw [Nat.mul_comm] at this
  omega

theorem checkedAddU32_some {a b c : Nat} (ha : a < 2 ^ 32) (h : checkedAddU32 a b = some c) :
    c = a + b ∧ a + b < 2 ^ 32 := by
  unfold checkedAddU32 at h
  split_ifs at h with hb
  have hlt : a + b < 2 ^ 32 := by omega
  rw [Nat.mod_eq_of_lt hlt] at h
  exact ⟨(Option.some.inj h).symm, hlt⟩

theorem checkedMulU32_some {a b c : Nat} (h : checkedMulU32 a b = some c) :
    c = a * b ∧ a * b < 2 ^ 32 := by
  unfold checkedMulU32 at h
  split_ifs at h with hb
  have hlt : a * b < 2 ^ 32 := by
    rcases Nat.eq_zero_or_pos a with rfl | ha
    · omega
    · have hle : b ≤ 0xFFFFFFFF / a := by
        by_contra hc
        exact hb ⟨by omega, by omega⟩
      have := (Nat.le_div_iff_mul_le ha).mp hle
      rw [Nat.mul_comm] at this
      omega
  rw [Nat.mod_eq_of_lt hlt] at h
  exact ⟨(Option.some.inj h).symm, hlt⟩

theorem subU32_eq {a b : Nat} (hb : b ≤ a) (ha : a < 2 ^ 32) : subU32 a b = a - b := by
  unfold subU32
  omega

/-- What the checks of `parse_bpb` leave true of the geometry on a disk of `diskSectors`. -/
structure BpbGeometry.Sound (g : BpbGeometry) (diskSectors : Nat) : Prop where
  spcPos : 0 < g.sectorsPerCluster
  spcLe : g.sectorsPerCluster ≤ 128
  fatCountPos : 0 < g.fatCount
  fatCountLt : g.fatCount < 256
  spfPos : 0 < g.sectorsPerFat
  fatBeginPos : 0 < g.fatBeginLba
  firstDataEq : g.firstDataLba = g.fatBeginLba + g.fatCount * g.sectorsPerFat
  firstDataLt : g.firstDataLba < g.totalSectors
  totalLe : g.totalSectors ≤ diskSectors
  totalLt : g.totalSectors < 2 ^ 32
  countEq : g.clusterCount = (g.totalSectors - g.firstDataLba) / g.sectorsPerCluster
  countGe : 65525 ≤ g.clusterCount
  capacity : g.clusterCount + 2 ≤ g.sectorsPerFat * 128
  countLt : g.clusterCount + 1 < 0x0FFFFFF0
  rootGe : 2 ≤ g.rootCluster
  rootLe : g.rootCluster ≤ g.clusterCount + 1
  activeLt : g.activeFat < g.fatCount
  mirrored : g.mirroringEnabled = true → g.activeFat = 0

theorem parseBpb_sound {sector : Sector} {diskSectors : Nat} {g : BpbGeometry}
    (h : parseBpb sector diskSectors = some g) : g.Sound diskSectors := by
  unfold parseBpb at h
  simp only [Option.ite_none_left_eq_some, Option.bind_eq_some_iff, Option.some.injEq] at h
  obtain ⟨-, -, -, hspc, hres, hact, hspf, hroot, htot, fatSectors, hmul, firstData, hadd,
    hfd, hcnt, req, hreq, cap, hcap, hcapLe, maxC, hmax, hmaxLt, hrootLe, rfl⟩ := h
  have hfc := UInt8.toNat_lt (sector.byte 16)
  obtain ⟨rfl, hmulLt⟩ := checkedMulU32_some hmul
  obtain ⟨rfl, haddLt⟩ := checkedAddU32_some
    (Nat.lt_trans (le16_lt sector.byte 14) (by decide)) hadd
  obtain ⟨rfl, hcapLt⟩ := checkedMulU32_some hcap
  have htotLt : (if le16 sector.byte 19 ≠ 0 then le16 sector.byte 19 else le32 sector.byte 32)
      < 2 ^ 32 := by
    have h16 := le16_lt sector.byte 19
    have h32 := le32_lt sector.byte 32
    split <;> omega
  rw [subU32_eq (by omega) htotLt] at hcnt hreq hmax
  have hspcPos : 0 < (sector.byte 13).toNat := by
    rcases Nat.eq_zero_or_pos (sector.byte 13).toNat with h0 | h0
    · simp [h0, isPowerOfTwo] at hspc
    · exact h0
  have hdiv := Nat.div_le_self ((if le16 sector.byte 19 ≠ 0 then le16 sector.byte 19
    else le32 sector.byte 32) - (le16 sector.byte 14 + (sector.byte 16).toNat * le32 sector.byte 36))
    (sector.byte 13).toNat
  obtain ⟨rfl, -⟩ := checkedAddU32_some (by omega) hreq
  obtain ⟨rfl, -⟩ := checkedAddU32_some (by omega) hmax
  constructor
  all_goals (try dsimp only)
  · exact hspcPos
  · omega
  · omega
  · exact hfc
  · omega
  · omega
  · omega
  · omega
  · exact htotLt
  · rw [subU32_eq (by omega) htotLt]
  · rw [subU32_eq (by omega) htotLt]; omega
  · rw [subU32_eq (by omega) htotLt]; omega
  · rw [subU32_eq (by omega) htotLt]; omega
  · omega
  · rw [subU32_eq (by omega) htotLt]; omega
  · split
    · omega
    · rename_i hm
      by_contra hc
      exact hact ⟨by simpa using hm, by rw [if_neg hm]; omega⟩
  · intro hm
    rw [if_pos hm]

def BpbGeometry.fatLba (g : BpbGeometry) (copy cluster : Nat) : Nat :=
  g.fatBeginLba + copy * g.sectorsPerFat + cluster / 128

def BpbGeometry.dataLba (g : BpbGeometry) (cluster index : Nat) : Nat :=
  g.firstDataLba + (cluster - 2) * g.sectorsPerCluster + index

theorem validCluster_iff {g : BpbGeometry} {c : Nat} :
    validCluster g c = true ↔ 2 ≤ c ∧ c ≤ g.clusterCount + 1 := by
  unfold validCluster
  simp only [Bool.and_eq_true, decide_eq_true_eq]
  omega

theorem validDataCluster_eq (g : BpbGeometry) (c : Nat) : validDataCluster g c = validCluster g c :=
  rfl

section Addresses
variable {g : BpbGeometry} {n : Nat} (hg : g.Sound n)
include hg

theorem fatLba_bounds {k c : Nat} (hc : validCluster g c = true) (hk : k < g.fatCount) :
    g.fatBeginLba + k * g.sectorsPerFat ≤ g.fatLba k c ∧
      g.fatLba k c < g.fatBeginLba + k * g.sectorsPerFat + g.sectorsPerFat ∧
      g.fatLba k c < g.firstDataLba := by
  have hcap := hg.capacity
  have hfd := hg.firstDataEq
  have hv := validCluster_iff.mp hc
  have hrow : k * g.sectorsPerFat + g.sectorsPerFat ≤ g.fatCount * g.sectorsPerFat := by
    rw [← Nat.succ_mul]
    exact Nat.mul_le_mul_right _ hk
  have hdiv : c / 128 < g.sectorsPerFat := by omega
  unfold BpbGeometry.fatLba
  omega

theorem dataLba_bounds {c i : Nat} (hc : validCluster g c = true) (hi : i < g.sectorsPerCluster) :
    g.firstDataLba ≤ g.dataLba c i ∧ g.dataLba c i < g.totalSectors ∧
      (c - 2) * g.sectorsPerCluster + g.sectorsPerCluster ≤ g.totalSectors - g.firstDataLba := by
  have hv := validCluster_iff.mp hc
  have hrow : (c - 2) * g.sectorsPerCluster + g.sectorsPerCluster ≤
      g.clusterCount * g.sectorsPerCluster := by
    rw [← Nat.succ_mul]
    exact Nat.mul_le_mul_right _ (by omega)
  have hdiv : g.clusterCount * g.sectorsPerCluster ≤ g.totalSectors - g.firstDataLba := by
    rw [hg.countEq]
    exact Nat.div_mul_le_self _ _
  have hlt := hg.firstDataLt
  unfold BpbGeometry.dataLba
  omega

theorem entryLocation_eq {k c : Nat} (hc : validCluster g c = true) (hk : k < g.fatCount) :
    entryLocation g c k = some (g.fatLba k c, c % 128 * 4) := by
  obtain ⟨hlo, hhi, hdata⟩ := fatLba_bounds hg hc hk
  have htot := hg.totalLt
  have hlt := hg.firstDataLt
  have hdiv : ¬c / 128 ≥ g.sectorsPerFat := by
    unfold BpbGeometry.fatLba at hhi
    omega
  unfold entryLocation
  rw [if_neg (by simp [hc]; exact hk), if_neg hdiv, checkedMulU32_eq (by omega), Option.bind_some,
    checkedAddU32_eq (by omega), Option.bind_some, checkedAddU32_eq (by unfold BpbGeometry.fatLba at *; omega),
    Option.bind_some]
  exact if_pos ⟨hdata, by unfold BpbGeometry.fatLba at *; omega⟩

theorem clusterToLba_eq {c : Nat} (hc : validCluster g c = true) :
    clusterToLba g.firstDataLba g.sectorsPerCluster c =
      some (g.firstDataLba + (c - 2) * g.sectorsPerCluster) := by
  obtain ⟨-, -, hrow⟩ := dataLba_bounds hg hc hg.spcPos
  have hv := validCluster_iff.mp hc
  have htot := hg.totalLt
  have hlt := hg.firstDataLt
  have hcnt := hg.countLt
  have hspc := hg.spcPos
  unfold clusterToLba
  rw [if_neg (by omega), subU32_eq hv.1 (by omega), checkedMulU32_eq (by omega), Option.bind_some,
    checkedAddU32_eq (by omega)]

theorem directoryLba_eq {c i : Nat} (hc : validCluster g c = true) (hi : i < g.sectorsPerCluster) :
    directoryLba g c i = some (g.dataLba c i) := by
  obtain ⟨-, hhi, hrow⟩ := dataLba_bounds hg hc hi
  have htot := hg.totalLt
  unfold directoryLba
  unfold BpbGeometry.dataLba at *
  rw [if_pos ⟨hc, hi⟩, clusterToLba_eq hg hc, Option.bind_some, checkedAddU32_eq (by omega),
    Option.bind_some, if_pos hhi]

theorem fatEntryLocation_eq {c : Nat} (hc : validCluster g c = true) :
    fatEntryLocation c g.fatBeginLba = some (g.fatBeginLba + c / 128, c % 128 * 4) := by
  have hb := fatLba_bounds hg hc hg.fatCountPos
  have hv := validCluster_iff.mp hc
  have hcnt := hg.countLt
  have htot := hg.totalLt
  have hlt := hg.firstDataLt
  have hdiv : c * 4 / 512 = c / 128 := by omega
  unfold BpbGeometry.fatLba at hb
  unfold fatEntryLocation
  rw [checkedMulU32_eq (by omega), Option.bind_some, hdiv, checkedAddU32_eq (by omega),
    Option.bind_some, show c * 4 % 512 = c % 128 * 4 by omega]

theorem activeLocation_eq {c : Nat} (hc : validCluster g c = true) :
    (checkedMulU32 g.activeFat g.sectorsPerFat).bind (checkedAddU32 (g.fatBeginLba + c / 128)) =
      some (g.fatLba g.activeFat c) := by
  obtain ⟨-, -, hdata⟩ := fatLba_bounds hg hc hg.activeLt
  have htot := hg.totalLt
  have hlt := hg.firstDataLt
  unfold BpbGeometry.fatLba at *
  rw [checkedMulU32_eq (by omega), Option.bind_some, checkedAddU32_eq (by omega)]
  congr 1
  omega

theorem fatLba_inj {k k' c c' : Nat} (hc : validCluster g c = true) (hc' : validCluster g c' = true)
    (hk : k < g.fatCount) (hk' : k' < g.fatCount) (h : g.fatLba k c = g.fatLba k' c') :
    k = k' ∧ c / 128 = c' / 128 := by
  have hb := fatLba_bounds hg hc hk
  have hb' := fatLba_bounds hg hc' hk'
  have hkk : k = k' := by
    rcases Nat.lt_trichotomy k k' with hlt | heq | hgt
    · have : (k + 1) * g.sectorsPerFat ≤ k' * g.sectorsPerFat := Nat.mul_le_mul_right _ hlt
      rw [Nat.succ_mul] at this
      omega
    · exact heq
    · have : (k' + 1) * g.sectorsPerFat ≤ k * g.sectorsPerFat := Nat.mul_le_mul_right _ hgt
      rw [Nat.succ_mul] at this
      omega
  subst hkk
  unfold BpbGeometry.fatLba at h
  exact ⟨rfl, by omega⟩

omit hg in
theorem dataLba_inj {c c' i i' : Nat} (hc : validCluster g c = true) (hc' : validCluster g c' = true)
    (hi : i < g.sectorsPerCluster) (hi' : i' < g.sectorsPerCluster)
    (h : g.dataLba c i = g.dataLba c' i') : c = c' ∧ i = i' := by
  have hv := validCluster_iff.mp hc
  have hv' := validCluster_iff.mp hc'
  unfold BpbGeometry.dataLba at h
  have hcc : c - 2 = c' - 2 := by
    rcases Nat.lt_trichotomy (c - 2) (c' - 2) with hlt | heq | hgt
    · have : (c - 2 + 1) * g.sectorsPerCluster ≤ (c' - 2) * g.sectorsPerCluster :=
        Nat.mul_le_mul_right _ hlt
      rw [Nat.succ_mul] at this
      omega
    · exact heq
    · have : (c' - 2 + 1) * g.sectorsPerCluster ≤ (c - 2) * g.sectorsPerCluster :=
        Nat.mul_le_mul_right _ hgt
      rw [Nat.succ_mul] at this
      omega
  rw [hcc] at h
  exact ⟨by omega, by omega⟩

end Addresses

/-- The least volume: 65530 clusters of one sector, two FAT copies, root directory at cluster 2. -/
def smallBoot : Sector := fun j =>
  match j.val with
  | 12 => 0x02
  | 13 => 0x01
  | 14 => 0x20
  | 16 => 0x02
  | 32 => 0x1A
  | 33 => 0x04
  | 34 => 0x01
  | 37 => 0x02
  | 44 => 0x02
  | 510 => 0x55
  | 511 => 0xAA
  | _ => 0

def smallGeometry : BpbGeometry where
  bytesPerSector := 512
  sectorsPerCluster := 1
  reservedSectors := 32
  fatCount := 2
  totalSectors := 66586
  sectorsPerFat := 512
  rootCluster := 2
  fatBeginLba := 32
  firstDataLba := 1056
  clusterCount := 65530
  mirroringEnabled := true
  activeFat := 0

theorem parseBpb_smallBoot : parseBpb smallBoot 66586 = some smallGeometry := by decide +kernel

end Linux95.Fat32
