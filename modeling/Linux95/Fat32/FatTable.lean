import Linux95.Fat32.Directories
import Linux95.Storage.Effects

/-! The FAT copies as a table of 28-bit values, and what `write_fat_entry` does to it. -/

namespace Linux95.Fat32
open Base Storage Write

abbrev Patch := Nat → Nat → Option Nat

/-- Byte `i` of an entry whose lower 28 bits become `v`; the upper four bits stay. -/
def patchByte (old : UInt8) (v i : Nat) : UInt8 :=
  if i < 3 then UInt8.ofNat (v / 2 ^ (8 * i)) else UInt8.ofNat (old.toNat / 16 * 16 + v / 2 ^ 24 % 16)

def BpbGeometry.copyOf (g : BpbGeometry) (lba : Nat) : Nat := (lba - g.fatBeginLba) / g.sectorsPerFat

def BpbGeometry.clusterOf (g : BpbGeometry) (lba j : Nat) : Nat :=
  (lba - g.fatBeginLba) % g.sectorsPerFat * 128 + j / 4

def patchFat (g : BpbGeometry) (p : Patch) (d : Disk) : Disk := fun lba j =>
  if g.fatBeginLba ≤ lba ∧ lba < g.firstDataLba then
    match p (g.copyOf lba) (g.clusterOf lba j.val) with
    | some v => patchByte (d lba j) v (j.val % 4)
    | none => d lba j
  else d lba j

def Patch.single (k c v : Nat) : Patch := fun k' c' => if k' = k ∧ c' = c then some v else none

def Patch.entry (c v : Nat) : Patch := fun _ c' => if c' = c then some v else none

section Bytes

theorem patchByte_patchByte (old : UInt8) (v w i : Nat) :
    patchByte (patchByte old v i) w i = patchByte old w i := by
  unfold patchByte
  split
  · rfl
  · have hlt := UInt8.toNat_lt old
    rw [UInt8.toNat_ofNat']
    congr 1
    omega

theorem patchByte_self {b : UInt8} {v i : Nat} (hi : i < 4)
    (h : (i < 3 → v / 2 ^ (8 * i) % 256 = b.toNat) ∧ (i = 3 → v / 2 ^ 24 % 16 = b.toNat % 16)) :
    patchByte b v i = b := by
  have hlt := UInt8.toNat_lt b
  unfold patchByte
  apply UInt8.toNat.inj
  split
  · rename_i hi3
    rw [UInt8.toNat_ofNat']
    exact h.1 hi3
  · have h3 := h.2 (by omega)
    rw [UInt8.toNat_ofNat']
    omega

theorem le32_byte (p : Bytes) (o i : Nat) (hi : i < 4) :
    le32 p o / 2 ^ (8 * i) % 256 = (p (o + i)).toNat := by
  have h0 := UInt8.toNat_lt (p o)
  have h1 := UInt8.toNat_lt (p (o + 1))
  have h2 := UInt8.toNat_lt (p (o + 2))
  have h3 := UInt8.toNat_lt (p (o + 3))
  unfold le32
  obtain rfl | rfl | rfl | rfl : i = 0 ∨ i = 1 ∨ i = 2 ∨ i = 3 := by omega
  all_goals
    simp only [Nat.reduceMul, Nat.reducePow, Nat.add_zero, Nat.div_one]
    omega

theorem patchByte_low (old : UInt8) (v : Nat) {i : Nat} (hi : i < 3) :
    (patchByte old v i).toNat = v / 2 ^ (8 * i) % 256 := by
  unfold patchByte
  rw [if_pos hi, UInt8.toNat_ofNat']

theorem patchByte_high (old : UInt8) (v : Nat) :
    (patchByte old v 3).toNat = old.toNat / 16 * 16 + v / 2 ^ 24 % 16 := by
  have hlt := UInt8.toNat_lt old
  unfold patchByte
  rw [if_neg (by decide), UInt8.toNat_ofNat']
  omega

theorem le32_patch {old new : Bytes} {o v : Nat}
    (h : ∀ i, i < 4 → new (o + i) = patchByte (old (o + i)) v i) :
    le32 new o = le32 old o / 2 ^ 28 * 2 ^ 28 + v % 2 ^ 28 := by
  have h0 : (new o).toNat = v / 2 ^ (8 * 0) % 256 := by
    rw [show new o = patchByte (old o) v 0 from h 0 (by decide), patchByte_low _ _ (by decide)]
  have h1 : (new (o + 1)).toNat = v / 2 ^ (8 * 1) % 256 := by rw [h 1 (by decide), patchByte_low _ _ (by decide)]
  have h2 : (new (o + 2)).toNat = v / 2 ^ (8 * 2) % 256 := by rw [h 2 (by decide), patchByte_low _ _ (by decide)]
  have h3 : (new (o + 3)).toNat = (old (o + 3)).toNat / 16 * 16 + v / 2 ^ 24 % 16 := by
    rw [h 3 (by decide), patchByte_high]
  have l0 := UInt8.toNat_lt (old o)
  have l1 := UInt8.toNat_lt (old (o + 1))
  have l2 := UInt8.toNat_lt (old (o + 2))
  have l3 := UInt8.toNat_lt (old (o + 3))
  unfold le32
  rw [h0, h1, h2, h3]
  simp only [Nat.reduceMul, Nat.reducePow, Nat.div_one]
  omega

end Bytes

theorem patchFat_outside {g : BpbGeometry} {p : Patch} {d : Disk} {lba : Nat}
    (h : lba < g.fatBeginLba ∨ g.firstDataLba ≤ lba) : patchFat g p d lba = d lba := by
  funext j
  unfold patchFat
  rw [if_neg (by omega)]

theorem patchFat_nothing (g : BpbGeometry) (d : Disk) : patchFat g (fun _ _ => none) d = d := by
  funext lba j
  unfold patchFat
  split <;> rfl

theorem patchFat_patchFat (g : BpbGeometry) (p q : Patch) (d : Disk) :
    patchFat g q (patchFat g p d) = patchFat g (fun k c => (q k c).or (p k c)) d := by
  funext lba j
  unfold patchFat
  by_cases hfat : g.fatBeginLba ≤ lba ∧ lba < g.firstDataLba
  · simp only [if_pos hfat]
    cases q (g.copyOf lba) (g.clusterOf lba j.val) with
    | none => rfl
    | some w =>
      cases p (g.copyOf lba) (g.clusterOf lba j.val) with
      | none => rfl
      | some v => exact patchByte_patchByte (d lba j) v w (j.val % 4)
  · simp only [if_neg hfat]

section Located
variable {g : BpbGeometry} {n : Nat} (hg : g.Sound n)
include hg

theorem copyOf_fatLba {k c : Nat} (hc : validCluster g c = true) (hk : k < g.fatCount) :
    g.copyOf (g.fatLba k c) = k := by
  obtain ⟨hlo, hhi, -⟩ := fatLba_bounds hg hc hk
  unfold BpbGeometry.copyOf
  rw [Nat.div_eq_iff hg.spfPos]
  omega

theorem clusterOf_fatLba {k c j : Nat} (hc : validCluster g c = true) (hk : k < g.fatCount)
    (hj : c % 128 * 4 ≤ j ∧ j < c % 128 * 4 + 4) : g.clusterOf (g.fatLba k c) j = c := by
  obtain ⟨hlo, hhi, -⟩ := fatLba_bounds hg hc hk
  have hsub : g.fatLba k c - g.fatBeginLba = k * g.sectorsPerFat + c / 128 := by
    unfold BpbGeometry.fatLba
    omega
  have hmod : (k * g.sectorsPerFat + c / 128) % g.sectorsPerFat = c / 128 := by
    rw [Nat.mul_add_mod_self_right, Nat.mod_eq_of_lt]
    unfold BpbGeometry.fatLba at hhi
    omega
  unfold BpbGeometry.clusterOf
  rw [hsub, hmod]
  omega

theorem copyOf_lt {lba : Nat} (hlba : g.fatBeginLba ≤ lba ∧ lba < g.firstDataLba) :
    g.copyOf lba < g.fatCount := by
  have hend := hg.firstDataEq
  unfold BpbGeometry.copyOf
  rw [Nat.div_lt_iff_lt_mul hg.spfPos]
  omega

omit hg in
theorem fatLba_copyOf {lba j : Nat} (hlba : g.fatBeginLba ≤ lba) (hj : j < 512) :
    g.fatLba (g.copyOf lba) (g.clusterOf lba j) = lba ∧ g.clusterOf lba j % 128 * 4 = j / 4 * 4 := by
  have hsplit := Nat.div_add_mod (lba - g.fatBeginLba) g.sectorsPerFat
  rw [Nat.mul_comm] at hsplit
  unfold BpbGeometry.fatLba BpbGeometry.copyOf BpbGeometry.clusterOf
  omega

theorem fatEntry_patchFat (p : Patch) (d : Disk) {k c : Nat} (hc : validCluster g c = true)
    (hk : k < g.fatCount) :
    fatEntry g (patchFat g p d) k c =
      match p k c with
      | some v => fatEntry g d k c / 2 ^ 28 * 2 ^ 28 + v % 2 ^ 28
      | none => fatEntry g d k c := by
  obtain ⟨hlo, -, hdata⟩ := fatLba_bounds hg hc hk
  have hfat : g.fatBeginLba ≤ g.fatLba k c ∧ g.fatLba k c < g.firstDataLba := ⟨by omega, hdata⟩
  have hbyte : ∀ i, i < 4 → (patchFat g p d (g.fatLba k c)).byte (c % 128 * 4 + i) =
      match p k c with
      | some v => patchByte ((d (g.fatLba k c)).byte (c % 128 * 4 + i)) v i
      | none => (d (g.fatLba k c)).byte (c % 128 * 4 + i) := by
    intro i hi
    have hlt : c % 128 * 4 + i < 512 := by omega
    have hcluster := clusterOf_fatLba hg hc hk (show c % 128 * 4 ≤ c % 128 * 4 + i ∧
      c % 128 * 4 + i < c % 128 * 4 + 4 by omega)
    have hmod : (c % 128 * 4 + i) % 4 = i := by omega
    unfold Sector.byte
    rw [dif_pos hlt, dif_pos hlt]
    unfold patchFat
    rw [if_pos hfat, copyOf_fatLba hg hc hk, hcluster, hmod]
  unfold fatEntry
  cases hp : p k c with
  | none =>
    rw [hp] at hbyte
    unfold le32
    rw [hbyte 1 (by decide), hbyte 2 (by decide), hbyte 3 (by decide),
      show (patchFat g p d (g.fatLba k c)).byte (c % 128 * 4) = _ from hbyte 0 (by decide)]
    rfl
  | some v =>
    rw [hp] at hbyte
    exact le32_patch hbyte

theorem patchFat_same {p : Patch} {d : Disk}
    (h : ∀ k c v, k < g.fatCount → p k c = some v → v = fat28 (fatEntry g d k c)) :
    patchFat g p d = d := by
  funext lba j
  unfold patchFat
  by_cases hfat : g.fatBeginLba ≤ lba ∧ lba < g.firstDataLba
  · rw [if_pos hfat]
    cases hp : p (g.copyOf lba) (g.clusterOf lba j.val) with
    | none => rfl
    | some v =>
      obtain ⟨hlba, hoffset⟩ := fatLba_copyOf hfat.1 j.isLt
      have hv := h _ _ v (copyOf_lt hg hfat) hp
      have hb := le32_byte (d lba).byte (j.val / 4 * 4) (j.val % 4) (by omega)
      have hj : (d lba).byte (j.val / 4 * 4 + j.val % 4) = d lba j := by
        unfold Sector.byte
        rw [show j.val / 4 * 4 + j.val % 4 = j.val by omega, dif_pos j.isLt]
      unfold fatEntry fat28 at hv
      rw [hlba, hoffset] at hv
      rw [hj] at hb
      apply patchByte_self (by omega)
      rw [hv]
      generalize le32 (d lba).byte (j.val / 4 * 4) = raw at hb
      constructor
      · intro hi
        obtain hi | hi | hi : j.val % 4 = 0 ∨ j.val % 4 = 1 ∨ j.val % 4 = 2 := by omega
        all_goals
          rw [hi] at hb ⊢
          simp only [Nat.reduceMul, Nat.reducePow, Nat.div_one] at hb ⊢
          omega
      · intro hi
        rw [hi] at hb
        simp only [Nat.reduceMul, Nat.reducePow] at hb ⊢
        omega
  · rw [if_neg hfat]

theorem patchFat_congr {p q : Patch} (d : Disk) (h : ∀ k c, k < g.fatCount → p k c = q k c) :
    patchFat g p d = patchFat g q d := by
  funext lba j
  unfold patchFat
  by_cases hfat : g.fatBeginLba ≤ lba ∧ lba < g.firstDataLba
  · rw [if_pos hfat, if_pos hfat, h _ _ (copyOf_lt hg hfat)]
  · rw [if_neg hfat, if_neg hfat]

theorem put32_patchFat {d : Disk} {k c raw : Nat} (hc : validCluster g c = true) (hk : k < g.fatCount)
    (hraw : raw < 2 ^ 32) (htop : raw / 2 ^ 28 = fatEntry g d k c / 2 ^ 28) :
    Function.update d (g.fatLba k c) (Sector.put32 (d (g.fatLba k c)) (c % 128 * 4) raw) =
      patchFat g (.single k c (fat28 raw)) d := by
  obtain ⟨hlo, -, hdata⟩ := fatLba_bounds hg hc hk
  funext lba j
  unfold patchFat
  by_cases hlba : lba = g.fatLba k c
  · rw [hlba, Function.update_self, if_pos ⟨by omega, hdata⟩, copyOf_fatLba hg hc hk]
    unfold Sector.put32
    by_cases hj : c % 128 * 4 ≤ j.val ∧ j.val < c % 128 * 4 + 4
    · have hsingle : Patch.single k c (fat28 raw) k c = some (fat28 raw) := if_pos ⟨rfl, rfl⟩
      rw [if_pos hj, clusterOf_fatLba hg hc hk hj, hsingle]
      have hi : j.val - c % 128 * 4 = j.val % 4 := by omega
      have hold := le32_byte (d (g.fatLba k c)).byte (c % 128 * 4) (j.val % 4) (by omega)
      have hbyte : (d (g.fatLba k c)).byte (c % 128 * 4 + j.val % 4) = d (g.fatLba k c) j := by
        unfold Sector.byte
        rw [show c % 128 * 4 + j.val % 4 = j.val by omega, dif_pos j.isLt]
      rw [hbyte] at hold
      unfold fatEntry at htop
      rw [hi]
      dsimp only
      generalize le32 (d (g.fatLba k c)).byte (c % 128 * 4) = old at hold htop
      apply UInt8.toNat.inj
      rw [UInt8.toNat_ofNat']
      by_cases h3 : j.val % 4 < 3
      · rw [patchByte_low _ _ h3]
        unfold fat28
        obtain hi | hi | hi : j.val % 4 = 0 ∨ j.val % 4 = 1 ∨ j.val % 4 = 2 := by omega
        all_goals
          rw [hi]
          simp only [Nat.reduceMul, Nat.reducePow, Nat.div_one]
          omega
      · have hi3 : j.val % 4 = 3 := by omega
        rw [hi3] at hold ⊢
        rw [patchByte_high]
        unfold fat28
        simp only [Nat.reduceMul, Nat.reducePow] at hold htop ⊢
        omega
    · have hne : g.clusterOf (g.fatLba k c) j.val ≠ c := by
        intro heq
        have hoffset := (fatLba_copyOf (show g.fatBeginLba ≤ g.fatLba k c by omega) j.isLt).2
        rw [heq] at hoffset
        omega
      have hsingle : Patch.single k c (fat28 raw) k (g.clusterOf (g.fatLba k c) j.val) = none :=
        if_neg fun h => hne h.2
      rw [if_neg hj, hsingle]
  · rw [Function.update_of_ne hlba]
    by_cases hfat : g.fatBeginLba ≤ lba ∧ lba < g.firstDataLba
    · have hsingle : Patch.single k c (fat28 raw) (g.copyOf lba) (g.clusterOf lba j.val) = none := by
        apply if_neg
        rintro ⟨hk', hc'⟩
        have hback := (fatLba_copyOf hfat.1 j.isLt).1
        rw [hk', hc'] at hback
        exact hlba hback.symm
      rw [if_pos hfat, hsingle]
    · rw [if_neg hfat]

end Located

def Agree (g : BpbGeometry) (d : Disk) (c : Nat) : Prop :=
  ∀ k, k < g.fatCount → fat28 (fatEntry g d k c) = fat28 (fatEntry g d 0 c)

instance (g : BpbGeometry) (d : Disk) (c : Nat) : Decidable (Agree g d c) :=
  inferInstanceAs (Decidable (∀ k, k < g.fatCount → _))

def copies (g : BpbGeometry) (d : Disk) (c : Nat) : List Nat :=
  (List.range g.fatCount).map fun k => fatEntry g d k c

theorem fatEntry_lt (g : BpbGeometry) (d : Disk) (k c : Nat) : fatEntry g d k c < 2 ^ 32 := le32_lt _ _

section Reading
variable {g : BpbGeometry} {n : Nat} (hg : g.Sound n)
include hg

theorem value_checkCopies {c : Nat} (hc : validCluster g c = true) (d : Disk) (v : Nat) :
    ∀ m, m ≤ g.fatCount → value (checkCopies g c v m) d =
      if ∀ k, k < g.fatCount → g.fatCount - m ≤ k → fat28 (fatEntry g d k c) = v then .ok ()
      else .error .corrupt
  | 0, _ => by
    rw [if_pos fun k hk hm => by omega]
    rfl
  | m + 1, hm => by
    have hk : g.fatCount - (m + 1) < g.fatCount := by omega
    unfold checkCopies
    rw [value_bind_ok (reads_readEntry _ _) (value_readEntry hg hc hk d), value_ite,
      value_checkCopies hc d v m (by omega)]
    by_cases hv : fat28 (fatEntry g d (g.fatCount - (m + 1)) c) = v
    · rw [if_neg (not_not.mpr hv)]
      congr 1
      apply propext
      constructor
      · intro h k hk' hmk
        by_cases heq : k = g.fatCount - (m + 1)
        · rw [heq]
          exact hv
        · exact h k hk' (by omega)
      · exact fun h k hk' hmk => h k hk' (by omega)
    · rw [if_pos hv, if_neg fun h => hv (h _ hk (le_refl _))]
      rfl

theorem value_chainNext_checked (c : Nat) (d : Disk) :
    value (chainNext g c true) d =
      if validCluster g c = true ∧ ¬ Agree g d c then .error .corrupt else linkResult (link g d c) := by
  have hunchecked := value_chainNext hg c d
  by_cases hc : validCluster g c = true
  · have hread := value_readEntry hg hc hg.fatCountPos d
    have hcopies := value_checkCopies hg hc d (fat28 (fatEntry g d 0 c)) (g.fatCount - 1) (by omega)
    have hagree : (∀ k, k < g.fatCount → g.fatCount - (g.fatCount - 1) ≤ k →
        fat28 (fatEntry g d k c) = fat28 (fatEntry g d 0 c)) ↔ Agree g d c := by
      have hpos := hg.fatCountPos
      constructor
      · intro h k hk
        rcases Nat.eq_zero_or_pos k with rfl | hk0
        · rfl
        · exact h k hk (by omega)
      · exact fun h k hk _ => h k hk
    unfold chainNext at hunchecked ⊢
    rw [value_bind_ok (reads_readEntry _ _) hread] at hunchecked ⊢
    dsimp only at hunchecked ⊢
    rw [if_pos rfl]
    by_cases ha : Agree g d c
    · rw [if_pos (hagree.mpr ha)] at hcopies
      rw [if_neg (by decide), value_bind_ok (reads_checkCopies _ _ _) rfl] at hunchecked
      have hcond : ¬ (validCluster g c = true ∧ ¬ Agree g d c) := fun h => h.2 ha
      rw [value_bind_ok (reads_checkCopies _ _ _) hcopies, if_neg hcond, ← hunchecked]
    · rw [if_neg (mt hagree.mp ha)] at hcopies
      rw [value_bind_error (reads_checkCopies _ _ _) hcopies, if_pos ⟨hc, ha⟩]
  · have hread : value (readEntry g c 0) d = .error .corrupt := by
      unfold readEntry entryLocation
      rw [if_pos (Or.inl (by simpa using hc))]
      rfl
    unfold chainNext link
    rw [value_bind_error (reads_readEntry _ _) hread, if_neg fun h => hc h.1, if_neg hc]
    rfl

theorem value_readCopies {c : Nat} (hc : validCluster g c = true) (d : Disk) :
    ∀ m, m ≤ g.fatCount →
      (∀ k, k < g.fatCount - m → fat28 (fatEntry g d k c) = fat28 (fatEntry g d 0 c)) →
      value (readCopies g c m ((List.range (g.fatCount - m)).map fun k => fatEntry g d k c)) d =
        if Agree g d c then .ok (copies g d c) else .error .corrupt
  | 0, _, hagree => by
    have hall : Agree g d c := hagree
    rw [if_pos hall]
    rfl
  | m + 1, hm, hagree => by
    have hk : g.fatCount - (m + 1) < g.fatCount := by omega
    have hnext : (List.range (g.fatCount - (m + 1))).map (fun k => fatEntry g d k c) ++
        [fatEntry g d (g.fatCount - (m + 1)) c] =
          (List.range (g.fatCount - m)).map fun k => fatEntry g d k c := by
      rw [show g.fatCount - m = g.fatCount - (m + 1) + 1 by omega, List.range_succ, List.map_append]
      rfl
    have hold : (List.range (g.fatCount - (m + 1))).map (fun k => fatEntry g d k c) ≠ [] ↔
        0 < g.fatCount - (m + 1) := by
      rw [ne_eq, List.map_eq_nil_iff, List.range_eq_nil]
      omega
    have hhead : 0 < g.fatCount - (m + 1) →
        ((List.range (g.fatCount - (m + 1))).map (fun k => fatEntry g d k c)).headD 0 =
          fatEntry g d 0 c := by
      intro hpos
      obtain ⟨i, hi⟩ := Nat.exists_eq_succ_of_ne_zero (Nat.pos_iff_ne_zero.mp hpos)
      rw [hi, List.range_succ_eq_map, List.map_cons, List.headD_cons]
    unfold readCopies
    rw [value_bind_ok (reads_readEntry _ _) (value_readEntry hg hc hk d), value_ite, hnext]
    by_cases hv : fat28 (fatEntry g d (g.fatCount - (m + 1)) c) = fat28 (fatEntry g d 0 c)
    · rw [if_neg]
      · apply value_readCopies hc d m (by omega)
        intro k hkm
        by_cases heq : k = g.fatCount - (m + 1)
        · rw [heq]
          exact hv
        · exact hagree k (by omega)
      · rintro ⟨hne, hraw⟩
        rw [hhead (hold.mp hne)] at hraw
        exact hraw hv
    · have hpos : 0 < g.fatCount - (m + 1) := by
        by_contra hzero
        rw [show g.fatCount - (m + 1) = 0 by omega] at hv
        exact hv rfl
      rw [if_pos ⟨hold.mpr hpos, by rw [hhead hpos]; exact hv⟩, if_neg fun h => hv (h _ hk)]
      rfl

end Reading

def Patch.upTo (k c v : Nat) : Patch := fun k' c' => if k' < k ∧ c' = c then some v else none

section Writing
variable {g : BpbGeometry} {n : Nat} (hg : g.Sound n)
include hg

theorem does_writeRaw {d : Disk} {k c raw : Nat} (hc : validCluster g c = true) (hk : k < g.fatCount)
    (hraw : raw < 2 ^ 32) (htop : raw / 2 ^ 28 = fatEntry g d k c / 2 ^ 28) :
    Does g.totalSectors (writeRaw g c k raw) d (.ok ()) (patchFat g (.single k c (fat28 raw)) d) := by
  have hlt : g.fatLba k c < g.totalSectors := (fatLba_bounds hg hc hk).2.2.trans hg.firstDataLt
  unfold writeRaw
  rw [entryLocation_eq hg hc hk, ← put32_patchFat hg hc hk hraw htop]
  exact .bind (.of_reads (.read hlt)) (.write _ hlt _)

theorem fatEntry_patchFat_top (p : Patch) (d : Disk) {k c : Nat} (hc : validCluster g c = true)
    (hk : k < g.fatCount) : fatEntry g (patchFat g p d) k c / 2 ^ 28 = fatEntry g d k c / 2 ^ 28 := by
  -- the upper four bits of an entry are kept by every patch
  rw [fatEntry_patchFat hg p d hc hk]
  cases p k c with
  | none => rfl
  | some v =>
    show (fatEntry g d k c / 2 ^ 28 * 2 ^ 28 + v % 2 ^ 28) / 2 ^ 28 = _
    omega

omit hg in
theorem upTo_succ (k c v : Nat) :
    (fun k' c' => (Patch.single k c v k' c').or (Patch.upTo k c v k' c')) = Patch.upTo (k + 1) c v := by
  funext k' c'
  unfold Patch.single Patch.upTo
  by_cases hc : c' = c
  · by_cases hk : k' = k
    · have hlt : k' < k + 1 ∧ c' = c := ⟨by omega, hc⟩
      have hnot : ¬ (k' < k ∧ c' = c) := fun h => by omega
      rw [if_pos ⟨hk, hc⟩, if_pos hlt, if_neg hnot]
      rfl
    · rw [if_neg fun h => hk h.1, Option.none_or]
      congr 1
      apply propext
      constructor
      · exact fun h => ⟨by omega, h.2⟩
      · exact fun h => ⟨by omega, h.2⟩
  · rw [if_neg fun h => hc h.2, if_neg fun h => hc h.2, if_neg fun h => hc h.2]
    rfl

omit hg in
theorem patchFat_upTo_zero (c v : Nat) (d : Disk) :
    patchFat g (.upTo ([] : List Nat).length c v) d = d := by
  have hnone : Patch.upTo ([] : List Nat).length c v = fun _ _ => none := by
    funext k c'
    exact if_neg fun h => Nat.not_lt_zero k h.1
  rw [hnone, patchFat_nothing]

theorem patchFat_upTo_all (c v : Nat) (d : Disk) :
    patchFat g (.upTo g.fatCount c v) d = patchFat g (.entry c v) d := by
  apply patchFat_congr hg
  intro k c' hk
  unfold Patch.upTo Patch.entry
  by_cases hc : c' = c
  · rw [if_pos ⟨hk, hc⟩, if_pos hc]
  · rw [if_neg fun h => hc h.2, if_neg hc]

theorem merged_entry (p : Patch) {d : Disk} {k c v raw : Nat} (hc : validCluster g c = true) (hk : k < g.fatCount)
    (hv : v < 2 ^ 28) (hraw : raw = fatEntry g d k c) :
    raw / 2 ^ 28 * 2 ^ 28 + v < 2 ^ 32 ∧
      (raw / 2 ^ 28 * 2 ^ 28 + v) / 2 ^ 28 = fatEntry g (patchFat g p d) k c / 2 ^ 28 ∧
      fat28 (raw / 2 ^ 28 * 2 ^ 28 + v) = v := by
  have hlt := fatEntry_lt g d k c
  rw [fatEntry_patchFat_top hg p d hc hk, hraw]
  unfold fat28
  omega

theorem does_writeCopies {d : Disk} {c v : Nat} (hc : validCluster g c = true) (hv : v < 2 ^ 28) :
    ∀ done old, done.length + old.length = g.fatCount →
      (∀ i, i < old.length → old[i]? = some (fatEntry g d (done.length + i) c)) →
      Does g.totalSectors (writeCopies g c v done old) (patchFat g (.upTo done.length c v) d) (.ok ())
        (patchFat g (.entry c v) d)
  | done, [], hlen, _ => by
    have hall : done.length = g.fatCount := by simpa using hlen
    rw [hall, patchFat_upTo_all hg]
    exact .pure ()
  | done, raw :: old, hlen, hold => by
    rw [List.length_cons] at hlen
    have hk : done.length < g.fatCount := by omega
    have hraw : raw = fatEntry g d done.length c := by
      have h0 := hold 0 (by simp)
      simpa using h0
    obtain ⟨hnew, htop, hlow⟩ := merged_entry hg (.upTo done.length c v) hc hk hv hraw
    have hwrite := does_writeRaw hg hc hk hnew htop
    rw [hlow, patchFat_patchFat, upTo_succ] at hwrite
    have hrest := does_writeCopies hc hv (done ++ [raw]) old (by simp; omega) (by
      intro i hi
      have hi' := hold (i + 1) (by simpa using hi)
      rw [List.getElem?_cons_succ] at hi'
      rw [hi', List.length_append, List.length_singleton, Nat.add_assoc, Nat.add_comm 1 i])
    rw [List.length_append, List.length_singleton] at hrest
    unfold writeCopies
    exact .bind hwrite.attempt hrest

def entryValue (g : BpbGeometry) (v : Nat) : Prop :=
  (v = 0 ∨ validCluster g v = true ∨ isEoc v = true) ∧ v < 2 ^ 28

omit hg in
theorem writeFatEntry_eq (hm : g.mirroringEnabled = true) {c v : Nat} (hc : validCluster g c = true)
    (hv : entryValue g v) :
    writeFatEntry (some g) c v = (readCopies g c g.fatCount [] >>= writeCopies g c v []) := by
  have hvalue : (v = 0 ∨ validCluster g v = true ∨ isEoc v = true) := hv.1
  have hlt := hv.2
  unfold writeFatEntry
  rw [geometryForWrite_bind, if_pos hm, if_neg]
  rintro (h | h | h)
  · rw [hc] at h
    cases h
  · simp only [Bool.not_eq_true', decide_eq_false_iff_not] at h
    exact h hvalue
  · omega

omit hg in
theorem writeFatEntry_throw {c v : Nat}
    (h : ¬ (g.mirroringEnabled = true ∧ validCluster g c = true ∧ entryValue g v)) :
    ∃ e, e ≠ .noSpace ∧ writeFatEntry (some g) c v = throw e := by
  unfold writeFatEntry
  rw [geometryForWrite_bind]
  by_cases hm : g.mirroringEnabled = true
  · rw [if_pos hm, if_pos]
    · exact ⟨.corrupt, by decide, rfl⟩
    · by_cases hc : validCluster g c = true
      · refine Or.inr ?_
        by_cases hvalue : v = 0 ∨ validCluster g v = true ∨ isEoc v = true
        · refine Or.inr ?_
          by_contra hlt
          exact h ⟨hm, hc, hvalue, by omega⟩
        · exact Or.inl (by simpa using hvalue)
      · exact Or.inl (by simpa using hc)
  · rw [if_neg hm]
    exact ⟨.unsupported, by decide, rfl⟩

theorem does_writeFatEntry (hm : g.mirroringEnabled = true) {d : Disk} {c v : Nat}
    (hc : validCluster g c = true) (hv : entryValue g v) (hagree : Agree g d c) :
    Does g.totalSectors (writeFatEntry (some g) c v) d (.ok ()) (patchFat g (.entry c v) d) := by
  have hread := value_readCopies hg hc d g.fatCount (le_refl _) (fun k hk => by omega)
  rw [Nat.sub_self, if_pos hagree] at hread
  have hwrite := does_writeCopies hg (d := d) hc hv.2 [] (copies g d c) (by simp [copies]) (by
    intro i hi
    have hi' : i < g.fatCount := by simpa [copies] using hi
    simp [copies, hi'])
  rw [patchFat_upTo_zero] at hwrite
  rw [writeFatEntry_eq hm hc hv]
  exact .bind (.of_value (reads_readCopies _ _ _) hread) hwrite

end Writing

def PatchedBy (g : BpbGeometry) (d : Disk) (Q : Nat → Nat → Nat → Prop) (d' : Disk) : Prop :=
  ∃ p, d' = patchFat g p d ∧ ∀ k c w, p k c = some w → Q k c w

section Refused
variable {g : BpbGeometry} {n : Nat} {d : Disk} {Q : Nat → Nat → Nat → Prop}

theorem PatchedBy.refl (g : BpbGeometry) (d : Disk) (Q : Nat → Nat → Nat → Prop) : PatchedBy g d Q d :=
  ⟨fun _ _ => none, (patchFat_nothing g d).symm, fun _ _ _ h => (nomatch h)⟩

theorem PatchedBy.mono {Q' : Nat → Nat → Nat → Prop} {d' : Disk} (h : PatchedBy g d Q d')
    (hQ : ∀ k c w, Q k c w → Q' k c w) : PatchedBy g d Q' d' := by
  obtain ⟨p, hp, hvalues⟩ := h
  exact ⟨p, hp, fun k c w hw => hQ k c w (hvalues k c w hw)⟩

theorem PatchedBy.trans {d' d'' : Disk} (h : PatchedBy g d Q d') (h' : PatchedBy g d' Q d'') :
    PatchedBy g d Q d'' := by
  obtain ⟨p, rfl, hp⟩ := h
  obtain ⟨q, rfl, hq⟩ := h'
  refine ⟨_, patchFat_patchFat g p q d, fun k c w hw => ?_⟩
  cases hqk : q k c with
  | none =>
    rw [hqk, Option.none_or] at hw
    exact hp k c w hw
  | some v =>
    rw [hqk] at hw
    obtain rfl : v = w := Option.some.inj hw
    exact hq k c v hqk

theorem patchedBy_patchFat {p : Patch} (h : ∀ k c w, p k c = some w → Q k c w) :
    PatchedBy g d Q (patchFat g p d) := ⟨p, rfl, h⟩

theorem single_eq_some {k c v k' c' w : Nat} (h : Patch.single k c v k' c' = some w) :
    k' = k ∧ c' = c ∧ w = v := by
  unfold Patch.single at h
  split_ifs at h with heq
  exact ⟨heq.1, heq.2, (Option.some.inj h).symm⟩

theorem entry_eq_some {c v k' c' w : Nat} (h : Patch.entry c v k' c' = some w) : c' = c ∧ w = v := by
  unfold Patch.entry at h
  split_ifs at h with heq
  exact ⟨heq, (Option.some.inj h).symm⟩

variable (hg : g.Sound n)
include hg

theorem writeRaw_wp {k c raw : Nat} (hc : validCluster g c = true) (hk : k < g.fatCount)
    (hraw : raw < 2 ^ 32) (dev : Device) (htop : raw / 2 ^ 28 = fatEntry g dev.sectors k c / 2 ^ 28) :
    wp (writeRaw g c k raw)
      (fun _ dev' => dev'.sectors = patchFat g (.single k c (fat28 raw)) dev.sectors)
      (fun e dev' => e = .ioError ∧ (dev'.sectors = dev.sectors ∨
        dev'.sectors = patchFat g (.single k c (fat28 raw)) dev.sectors)) dev := by
  unfold writeRaw
  rw [entryLocation_eq hg hc hk, ← put32_patchFat hg hc hk hraw htop]
  refine wp_bind (readSector_wp dev _) ?_ (fun e dev' h => ⟨h.1, Or.inl h.2.1⟩)
  rintro s dev' ⟨rfl, hsec, -⟩
  refine wp_mono (writeSector_wp dev' .fat _ _) (fun _ _ h => ?_) (fun e _ h => ⟨h.1, ?_⟩)
  · rw [h.1, hsec]
  · have hcases := h.2.1
    rw [hsec] at hcases
    exact hcases

theorem keeps_patchedBy_writeRaw {k c raw : Nat} (hc : validCluster g c = true) (hk : k < g.fatCount)
    (hraw : raw < 2 ^ 32) (htop : raw / 2 ^ 28 = fatEntry g d k c / 2 ^ 28) (hQ : Q k c (fat28 raw)) :
    Keeps (fun dev => PatchedBy g d Q dev.sectors) (writeRaw g c k raw) := by
  refine keeps_of_wp fun dev hdev => ?_
  have hstep : PatchedBy g dev.sectors Q (patchFat g (.single k c (fat28 raw)) dev.sectors) := by
    apply patchedBy_patchFat
    intro k' c' w hw
    obtain ⟨rfl, rfl, rfl⟩ := single_eq_some hw
    exact hQ
  have htop' : raw / 2 ^ 28 = fatEntry g dev.sectors k c / 2 ^ 28 := by
    obtain ⟨p, hp, -⟩ := hdev
    rw [hp, fatEntry_patchFat_top hg p d hc hk]
    exact htop
  refine wp_mono (writeRaw_wp hg hc hk hraw dev htop') (fun _ dev' h => ?_) (fun e dev' h => ?_)
  · rw [h]
    exact hdev.trans hstep
  · rcases h.2 with h | h
    · rw [h]
      exact hdev
    · rw [h]
      exact hdev.trans hstep

theorem restoreCopies_wp {c : Nat} (hc : validCluster g c = true) : ∀ k old (dev : Device),
    PatchedBy g d Q dev.sectors →
    (∀ i raw, old[i]? = some raw → k + i < g.fatCount ∧ raw = fatEntry g d (k + i) c ∧
      Q (k + i) c (fat28 raw)) →
    wp (restoreCopies g c k old) (fun _ dev' => PatchedBy g d Q dev'.sectors) (fun _ _ => False) dev
  | _, [], _, hdev, _ => wp_pure hdev
  | k, raw :: old, dev, hdev, hold => by
    obtain ⟨hk, hraw, hQ⟩ := hold 0 raw rfl
    rw [Nat.add_zero] at hk hraw hQ
    have hlt := fatEntry_lt g d k c
    have hkeeps := keeps_patchedBy_writeRaw hg hc hk (hraw ▸ hlt) (by rw [hraw]) hQ
    unfold restoreCopies
    refine wp_bind (wp_attempt (hkeeps.wp hdev) (Q := fun _ dev' => PatchedBy g d Q dev'.sectors)
      (fun _ _ h => h) (fun _ _ h => h)) ?_ (fun _ _ h => h)
    intro _ dev' hdev'
    refine restoreCopies_wp hc (k + 1) old dev' hdev' fun i raw' hraw' => ?_
    rw [Nat.add_right_comm, Nat.add_assoc]
    exact hold (i + 1) raw' (by rwa [List.getElem?_cons_succ])

/-- The outcome of `write_fat_entry` when some requests fail: each copy has its old value or the new one. -/
theorem writeCopies_wp {c v : Nat} (hc : validCluster g c = true) (hv : v < 2 ^ 28)
    (hnew : ∀ k, Q k c v) (hold' : ∀ k, Q k c (fat28 (fatEntry g d k c))) :
    ∀ done old (dev : Device), dev.sectors = patchFat g (.upTo done.length c v) d →
      done.length + old.length = g.fatCount →
      (∀ i raw, (done ++ old)[i]? = some raw → raw = fatEntry g d i c) →
      wp (writeCopies g c v done old) (fun _ dev' => dev'.sectors = patchFat g (.entry c v) d)
        (fun e dev' => e = .ioError ∧ PatchedBy g d Q dev'.sectors) dev
  | done, [], dev, hdev, hlen, _ => by
    have hall : done.length = g.fatCount := by simpa using hlen
    rw [hall, patchFat_upTo_all hg] at hdev
    exact wp_pure hdev
  | done, raw :: old, dev, hdev, hlen, hraws => by
    rw [List.length_cons] at hlen
    have hk : done.length < g.fatCount := by omega
    have hraw : raw = fatEntry g d done.length c := hraws done.length raw (by simp)
    obtain ⟨hnewlt, htop, hlow⟩ := merged_entry hg (.upTo done.length c v) hc hk hv hraw
    rw [← hdev] at htop
    have hupTo : ∀ m, PatchedBy g d Q (patchFat g (.upTo m c v) d) := by
      intro m
      apply patchedBy_patchFat
      intro k c' w hw
      unfold Patch.upTo at hw
      split_ifs at hw with heq
      obtain rfl := Option.some.inj hw
      rw [heq.2]
      exact hnew k
    have hwrite := writeRaw_wp hg hc hk hnewlt dev htop
    rw [hlow, hdev, patchFat_patchFat, upTo_succ] at hwrite
    unfold writeCopies
    refine wp_bind (wp_attempt hwrite
      (Q := fun r dev' => (r = .ok () ∧ dev'.sectors = patchFat g (.upTo (done.length + 1) c v) d) ∨
        (∃ e, r = .error e) ∧ PatchedBy g d Q dev'.sectors) (E := fun _ _ => False)
      (fun _ dev' h => Or.inl ⟨rfl, h⟩) (fun e dev' h => Or.inr ⟨⟨e, rfl⟩, ?_⟩)) ?_
      (fun _ _ h => h.elim)
    · rcases h.2 with h | h
      · rw [h]
        exact hupTo _
      · rw [h]
        exact hupTo _
    · rintro r dev' (⟨rfl, hdev'⟩ | ⟨⟨e, rfl⟩, hdev'⟩)
      · apply writeCopies_wp hc hv hnew hold' (done ++ [raw]) old dev'
        · rw [hdev', List.length_append, List.length_singleton]
        · simp only [List.length_append, List.length_singleton]
          omega
        · rwa [List.append_assoc]
      · refine wp_bind (restoreCopies_wp hg hc 0 done dev' hdev' ?_) (fun _ dev'' h => wp_throw ⟨rfl, h⟩)
          (fun _ _ h => h.elim)
        intro i raw' hi
        have hlt' : i < done.length := (List.getElem?_eq_some_iff.mp hi).1
        have hraw' := hraws i raw' (by rw [List.getElem?_append_left hlt']; exact hi)
        rw [Nat.zero_add, hraw']
        exact ⟨by omega, rfl, hold' i⟩

/-- What `write_fat_entry` leaves behind when it fails: each copy has its old value or the new one. -/
def HalfWritten (g : BpbGeometry) (d : Disk) (c v : Nat) (d' : Disk) : Prop :=
  PatchedBy g d (fun k c' w => c' = c ∧ (w = v ∨ w = fat28 (fatEntry g d k c))) d'

theorem writeFatEntry_wp (c v : Nat) (dev : Device) :
    wp (writeFatEntry (some g) c v)
      (fun _ dev' => dev'.sectors = patchFat g (.entry c v) dev.sectors ∧ g.mirroringEnabled = true ∧
        validCluster g c = true ∧ entryValue g v ∧ Agree g dev.sectors c)
      (fun e dev' => e ≠ .noSpace ∧ (dev'.sectors = dev.sectors ∨
        validCluster g c = true ∧ entryValue g v ∧ Agree g dev.sectors c ∧
          HalfWritten g dev.sectors c v dev'.sectors)) dev := by
  by_cases haccepted : g.mirroringEnabled = true ∧ validCluster g c = true ∧ entryValue g v
  · obtain ⟨hm, hc, hv⟩ := haccepted
    have hread := value_readCopies hg hc dev.sectors g.fatCount (le_refl _) (fun k hk => by omega)
    rw [Nat.sub_self] at hread
    rw [writeFatEntry_eq hm hc hv]
    refine wp_bind ((reads_readCopies c g.fatCount []).wp dev) ?_ ?_
    · rintro old dev' ⟨hvalue, hsec, -⟩
      have hagree : Agree g dev.sectors c := by
        by_contra hnot
        rw [if_neg hnot] at hread
        exact nomatch hread.symm.trans hvalue
      rw [if_pos hagree] at hread
      obtain rfl : copies g dev.sectors c = old := Except.ok.inj (hread.symm.trans hvalue)
      have hnone : dev'.sectors = patchFat g (.upTo ([] : List Nat).length c v) dev.sectors := by
        rw [patchFat_upTo_zero]
        exact hsec
      refine wp_mono (writeCopies_wp hg (d := dev.sectors) hc hv.2 (fun k => ⟨rfl, Or.inl rfl⟩)
        (fun k => ⟨rfl, Or.inr rfl⟩) [] (copies g dev.sectors c) dev' hnone (by simp [copies])
        (fun i raw hi => ?_)) (fun _ _ h => ⟨h, hm, hc, hv, hagree⟩)
        (fun e _ h => ⟨?_, Or.inr ⟨hc, hv, hagree, h.2⟩⟩)
      · obtain ⟨hlt, hget⟩ := List.getElem?_eq_some_iff.mp hi
        simpa [copies] using hget.symm
      · rw [h.1]
        decide
    · rintro e dev' ⟨hsec, -, hcases⟩
      refine ⟨?_, Or.inl hsec⟩
      rcases hcases with hvalue | ⟨rfl, -⟩
      · split_ifs at hread
        · exact nomatch hread.symm.trans hvalue
        · rw [← Except.error.inj (hread.symm.trans hvalue)]
          decide
      · decide
  · obtain ⟨e, he, hthrow⟩ := writeFatEntry_throw haccepted
    rw [hthrow]
    exact wp_throw ⟨he, Or.inl rfl⟩

end Refused

end Linux95.Fat32
