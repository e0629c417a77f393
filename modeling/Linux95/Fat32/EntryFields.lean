import Linux95.Fat32.MoveFaults
import Linux95.Fat32.ObjectChecks
import Linux95.Fat32.ReadyVolume

/-! The entries that the operations write: what their fields say, and that they stand for the clusters that
were prepared for them. -/

namespace Linux95.Fat32
open Base Storage Write

def updatedEntry (e : Entry) (name : ShortName) (first size : Nat) : Entry :=
  let renamed := setName e name
  let high := UInt8.ofNat ((renamed.byte 21).toNat / 16 * 16 + first / 2 ^ 24 % 16)
  setSize ((setFirstCluster renamed first).setByte 21 high) size

section Bytes
variable {e : Entry} {name : ShortName} {first size : Nat}

theorem byte_setByte {i k : Nat} (hk : k < 32) (v : UInt8) : (e.setByte i v).byte k = if k = i then v else e.byte k := by
  unfold Entry.byte Entry.setByte
  rw [dif_pos hk, dif_pos hk]

theorem byte_setSize_low {i : Nat} (hi : i < 28) : (setSize e size).byte i = e.byte i := by
  unfold Entry.byte setSize
  rw [dif_pos (by omega), dif_pos (by omega), if_neg (by dsimp only; omega)]

theorem byte_setSize_high {i : Nat} (hi : 28 ≤ i) (hlt : i < 32) :
    (setSize e size).byte i = UInt8.ofNat (size / 2 ^ (8 * (i - 28))) := by
  unfold Entry.byte setSize
  rw [dif_pos hlt, if_pos hi]

theorem le32_setSize (hsize : size < 2 ^ 32) : le32 (setSize e size).byte 28 = size := by
  unfold le32
  rw [byte_setSize_high (by decide) (by decide), byte_setSize_high (by decide) (by decide),
    byte_setSize_high (by decide) (by decide), byte_setSize_high (by decide) (by decide)]
  simp only [UInt8.toNat_ofNat']
  omega

theorem byte_setFirstCluster {i : Nat} (hi : i < 32) : (setFirstCluster e first).byte i =
    if i = 27 then UInt8.ofNat (first / 2 ^ 8) else if i = 26 then UInt8.ofNat first
    else if i = 21 then UInt8.ofNat (first / 2 ^ 24) else if i = 20 then UInt8.ofNat (first / 2 ^ 16) else e.byte i := by
  unfold setFirstCluster
  rw [byte_setByte hi, byte_setByte hi, byte_setByte hi, byte_setByte hi]

theorem cluster_of_bytes (hfirst : first < 2 ^ 28) (h20 : e.byte 20 = UInt8.ofNat (first / 2 ^ 16))
    (h21 : e.byte 21 = UInt8.ofNat (first / 2 ^ 24)) (h26 : e.byte 26 = UInt8.ofNat first)
    (h27 : e.byte 27 = UInt8.ofNat (first / 2 ^ 8)) : firstCluster e = first ∧ storedCluster e = first := by
  unfold firstCluster storedCluster le16
  rw [h20, h21, h26, h27]
  simp only [UInt8.toNat_ofNat']
  omega

theorem high_zero (h : storedCluster e = firstCluster e) : (e.byte 21).toNat / 16 = 0 := by
  have h20 := UInt8.toNat_lt (e.byte 20)
  have h21 := UInt8.toNat_lt (e.byte 21)
  unfold storedCluster firstCluster le16 at h
  simp only [Nat.reduceAdd] at h
  omega

theorem setName_stored (e : Entry) (name : ShortName) : storedCluster (setName e name) = storedCluster e := by
  unfold storedCluster le16
  rw [byte_setName_high (by decide), byte_setName_high (by decide), byte_setName_high (by decide),
    byte_setName_high (by decide)]

end Bytes

section Fields
variable {e : Entry} {name : ShortName} {first size : Nat}

theorem name_of_bytes (h : ∀ i < 11, e.byte i = name.byte i) : e.name = name := by
  funext i
  unfold Entry.name
  rw [h i.val i.isLt]
  unfold ShortName.byte
  rw [dif_pos i.isLt]

theorem fileEntry_fields (name : ShortName) (hfirst : first < 2 ^ 28) (hsize : size < 2 ^ 32) :
    (fileEntry name first size).name = name ∧ (fileEntry name first size).byte 11 = 0x20 ∧
      firstCluster (fileEntry name first size) = first ∧ storedCluster (fileEntry name first size) = first ∧
      le32 (fileEntry name first size).byte 28 = size := by
  have hbyte : ∀ i < 28, (fileEntry name first size).byte i =
      (setFirstCluster (setName (Entry.zero.setByte 11 0x20) name) first).byte i := fun i hi => byte_setSize_low hi
  obtain ⟨hcluster, hstored⟩ : firstCluster (fileEntry name first size) = first ∧
      storedCluster (fileEntry name first size) = first := by
    refine cluster_of_bytes hfirst ?_ ?_ ?_ ?_
    all_goals
      rw [hbyte _ (by decide), byte_setFirstCluster (by decide)]
      rfl
  refine ⟨name_of_bytes fun i hi => ?_, ?_, hcluster, hstored, le32_setSize hsize⟩
  · rw [hbyte i (by omega), byte_setFirstCluster (by omega), if_neg (by omega), if_neg (by omega), if_neg (by omega),
      if_neg (by omega), byte_setName_low hi]
  · rw [hbyte 11 (by decide), byte_setFirstCluster (by decide), byte_setName_high (le_refl 11)]
    rfl

theorem updatedEntry_fields (name : ShortName) (hstored : storedCluster e = firstCluster e) (hfirst : first < 2 ^ 28) (hsize : size < 2 ^ 32) :
    (updatedEntry e name first size).name = name ∧ (updatedEntry e name first size).byte 11 = e.byte 11 ∧
      firstCluster (updatedEntry e name first size) = first ∧ storedCluster (updatedEntry e name first size) = first ∧
      le32 (updatedEntry e name first size).byte 28 = size := by
  obtain ⟨high, hhigh⟩ : ∃ high, high = UInt8.ofNat (((setName e name).byte 21).toNat / 16 * 16 + first / 2 ^ 24 % 16) :=
    ⟨_, rfl⟩
  have hbyte : ∀ i < 28, (updatedEntry e name first size).byte i =
      if i = 21 then high else (setFirstCluster (setName e name) first).byte i := by
    intro i hi
    unfold updatedEntry
    dsimp only
    rw [byte_setSize_low hi, byte_setByte (by omega), hhigh]
  have hnibble : high = UInt8.ofNat (first / 2 ^ 24) := by
    rw [hhigh, byte_setName_high (by decide), high_zero hstored]
    exact congrArg UInt8.ofNat (by omega)
  obtain ⟨hcluster, hstored'⟩ : firstCluster (updatedEntry e name first size) = first ∧
      storedCluster (updatedEntry e name first size) = first := by
    refine cluster_of_bytes hfirst ?_ ?_ ?_ ?_
    · rw [hbyte 20 (by decide), if_neg (by decide), byte_setFirstCluster (by decide)]
      rfl
    · rw [hbyte 21 (by decide), if_pos rfl, hnibble]
    · rw [hbyte 26 (by decide), if_neg (by decide), byte_setFirstCluster (by decide)]
      rfl
    · rw [hbyte 27 (by decide), if_neg (by decide), byte_setFirstCluster (by decide)]
      rfl
  refine ⟨name_of_bytes fun i hi => ?_, ?_, hcluster, hstored', le32_setSize hsize⟩
  · rw [hbyte i (by omega), if_neg (by omega), byte_setFirstCluster (by omega), if_neg (by omega), if_neg (by omega),
      if_neg (by omega), if_neg (by omega), byte_setName_low hi]
  · rw [hbyte 11 (by decide), if_neg (by decide), byte_setFirstCluster (by decide), byte_setName_high (le_refl 11)]
    rfl

theorem directoryEntry_fields (hfirst : first < 2 ^ 28) :
    firstCluster (setFirstCluster (Entry.zero.setByte 11 0x10) first) = first ∧
      storedCluster (setFirstCluster (Entry.zero.setByte 11 0x10) first) = first ∧
      (setFirstCluster (Entry.zero.setByte 11 0x10) first).byte 11 = 0x10 := by
  obtain ⟨hcluster, hstored⟩ := cluster_of_bytes (e := setFirstCluster (Entry.zero.setByte 11 0x10) first) hfirst
    (byte_setFirstCluster (by decide)) (byte_setFirstCluster (by decide)) (byte_setFirstCluster (by decide))
    (byte_setFirstCluster (by decide))
  exact ⟨hcluster, hstored, byte_setFirstCluster (by decide)⟩

end Fields

section Standing
variable {g : BpbGeometry} {n : Nat} (hg : g.Sound n) {d : Disk} {e : Entry} {text : CString} {name : ShortName}
  {first size : Nat} {l : List Nat}

theorem attribute_file (h : e.byte 11 = 0x20) : isDirectoryEntry e = false ∧ e.byte 11 &&& 0x08 = 0 := by
  unfold isDirectoryEntry
  rw [h]
  decide

theorem attribute_directory (h : e.byte 11 = 0x10) : isDirectoryEntry e = true ∧ e.byte 11 &&& 0x08 = 0 := by
  unfold isDirectoryEntry
  rw [h]
  decide

include hg

theorem Holds.lt (h : Holds g d first l) : first < 2 ^ 28 := by
  rcases h with ⟨rfl, -⟩ | hl
  · decide
  · have hlt := valid_lt hg (hl.valid first hl.head_mem)
    omega

theorem Holds.zero_iff (h : Holds g d first l) (hlength : l.length = fileClusters g size) : first = 0 ↔ size = 0 := by
  have hzero : fileClusters g size = 0 ↔ size = 0 := fileClusters_zero_iff hg
  rw [← hzero, ← hlength]
  rcases h with ⟨rfl, rfl⟩ | hl
  · exact ⟨fun _ => rfl, fun _ => rfl⟩
  · refine ⟨fun h => absurd h hl.first_ne, fun h => ?_⟩
    have hmem := hl.head_mem
    rw [List.length_eq_zero_iff.mp h] at hmem
    cases hmem

theorem stands_file (henc : encodeShortName text = some e.name) (hfile : isDirectoryEntry e = false)
    (hfirst : firstCluster e = first) (hstored : storedCluster e = first) (hsize : le32 e.byte 28 = size)
    (hholds : Holds g d first l) (hlength : l.length = fileClusters g size) : Stands g d e l := by
  refine ⟨?_, fun h => ?_, fun _ => ?_, ⟨text, henc⟩, hstored.trans hfirst.symm⟩
  · rw [hfirst]
    exact hholds
  · rw [hfile] at h
    cases h
  · rw [hfirst, hsize]
    exact ⟨hholds.zero_iff hg hlength, fun _ => hlength⟩

theorem Stands.file_length (h : Stands g d e l) (hfile : isDirectoryEntry e = false) :
    l.length = fileClusters g (le32 e.byte 28) := by
  obtain ⟨hzero, hlength⟩ := h.file hfile
  rcases h.holds with ⟨hfirst, rfl⟩ | hl
  · exact ((fileClusters_zero_iff hg).mpr (hzero.mp hfirst)).symm
  · exact hlength hl.first_ne

omit hg in
theorem stands_directory (henc : encodeShortName text = some e.name) (hdirectory : isDirectoryEntry e = true)
    (hfirst : firstCluster e = first) (hstored : storedCluster e = first) (hl : Chain g d first l) : Stands g d e l := by
  refine ⟨?_, fun _ => ?_, fun h => ?_, ⟨text, henc⟩, hstored.trans hfirst.symm⟩
  · rw [hfirst]
    exact Or.inr hl
  · rw [hfirst]
    exact hl.first_ne
  · rw [hdirectory] at h
    cases h

omit hg in
theorem Stands.setName (h : Stands g d e l) (henc : encodeShortName text = some name) : Stands g d (Write.setName e name) l := by
  obtain ⟨hcluster, hsize⟩ := setName_cluster e name
  refine ⟨?_, ?_, ?_, ⟨text, ?_⟩, ?_⟩
  · rw [hcluster]
    exact h.holds
  · rw [setName_directory, hcluster]
    exact h.directory
  · rw [setName_directory, hcluster, hsize]
    exact h.file
  · rw [name_setName]
    exact henc
  · rw [setName_stored, hcluster]
    exact h.encoded.2

end Standing

section Writes
variable {g : BpbGeometry} {d : Disk} {slot : DirectorySlot} (name : ShortName) {first : Nat} (size : Nat)
  (hvalid : validSlot g slot = true) (hlba : slot.lba < g.totalSectors)
include hvalid hlba

theorem does_putDirectoryEntryStatus (e : Entry) :
    Does g.totalSectors (putDirectoryEntryStatus g slot e) d (.ok ()) (putSlot d slot e) := by
  unfold putDirectoryEntryStatus
  rw [if_neg (by rw [hvalid]; decide)]
  exact .bind (.of_value (.read hlba) rfl) (.write .data hlba _)

theorem does_updateDirectoryEntry (hm : g.mirroringEnabled = true) (hlive : liveShortEntry (entryAt d slot) = true)
    (hfirst : first = 0 ∨ validCluster g first = true) :
    Does g.totalSectors (updateDirectoryEntry (some g) slot name first size) d (.ok ())
      (putSlot d slot (updatedEntry (entryAt d slot) name first size)) := by
  have hread : value (Write.readDirectoryEntry (some g) slot) d = .ok (entryAt d slot) := by
    unfold Write.readDirectoryEntry
    rw [geometryForWrite_bind, if_pos hm, if_neg (by rw [hvalid]; decide)]
    rfl
  have hcluster : ¬ (first ≠ 0 ∧ (!validCluster g first) = true) := by
    rintro ⟨hne, hnot⟩
    rw [hfirst.resolve_left hne] at hnot
    cases hnot
  unfold updateDirectoryEntry
  rw [geometryForWrite_bind, if_pos hm, if_neg hcluster]
  refine .bind (.of_value (reads_readDirectoryEntry slot) hread) ?_
  rw [if_neg (by rw [hlive]; decide)]
  exact does_putDirectoryEntryStatus hvalid hlba _

end Writes

section NewDirectory
variable {g : BpbGeometry} {n : Nat} (hg : g.Sound n) {d : Disk} {fresh : Nat}

theorem isDotEntry_congr {e e' : Entry} (h : ∀ i < 12, e.byte i = e'.byte i) : isDotEntry e = isDotEntry e' := by
  have hrest : (∀ i : Fin 11, 2 ≤ i.val → e.byte i.val = 0x20) ↔ ∀ i : Fin 11, 2 ≤ i.val → e'.byte i.val = 0x20 :=
    forall_congr' fun i => by rw [h i.val (by omega)]
  unfold isDotEntry isDirectoryEntry
  rw [h 0 (by decide), h 1 (by decide), h 11 (by decide), decide_eq_decide.mpr hrest]

theorem isDotEntry_dotEntry {dots cluster : Nat} (h : dots = 1 ∨ dots = 2) : isDotEntry (dotEntry dots cluster) = true := by
  have hbase : ∀ i < 12, (dotEntry dots cluster).byte i =
      Entry.byte (fun j => if j.val < dots then 0x2E else if j.val < 11 then 0x20 else if j.val = 11 then 0x10 else 0) i := by
    intro i hi
    unfold dotEntry
    rw [byte_setFirstCluster (by omega), if_neg (by omega), if_neg (by omega), if_neg (by omega), if_neg (by omega)]
  rw [isDotEntry_congr hbase]
  rcases h with rfl | rfl <;> decide

theorem dotEntry_used {dots cluster : Nat} (h : dots ≠ 0) : (dotEntry dots cluster).byte 0 ≠ 0 := by
  unfold dotEntry
  rw [byte_setFirstCluster (by decide), if_neg (by decide), if_neg (by decide), if_neg (by decide), if_neg (by decide)]
  unfold Entry.byte
  rw [dif_pos (by decide)]
  dsimp only
  rw [if_pos (Nat.pos_of_ne_zero h)]
  decide

include hg

theorem clusterSlots_three (c : Nat) : ∃ rest,
    clusterSlots g c = ⟨g.dataLba c 0, 0⟩ :: ⟨g.dataLba c 0, 32⟩ :: ⟨g.dataLba c 0, 64⟩ :: rest := by
  obtain ⟨k, hk⟩ : ∃ k, g.sectorsPerCluster = k + 1 := ⟨g.sectorsPerCluster - 1, by have := hg.spcPos; omega⟩
  unfold clusterSlots sectorSlots
  rw [hk, List.range'_succ, List.flatMap_cons]
  exact ⟨_, rfl⟩

theorem does_prepareDirectory (parent : Nat) (hl : Chain g d fresh [fresh]) :
    ∃ d', Does g.totalSectors (prepareDirectory g fresh parent) d (.ok ()) d' ∧ OnlyData g [fresh] d d' ∧
      (usedSlots g d' fresh).all (idle d') = true := by
  have hfresh := hl.valid fresh List.mem_cons_self
  obtain ⟨target, htarget⟩ : ∃ target, target = if parent = g.rootCluster then 0 else parent := ⟨_, rfl⟩
  obtain ⟨filled, hfilled⟩ : ∃ filled, filled = fillSectors g fresh Sector.zero g.sectorsPerCluster d := ⟨_, rfl⟩
  obtain ⟨rest, hslots⟩ := clusterSlots_three hg fresh
  have hfill := (oneFault_fillCluster hg (d := d) hfresh Sector.zero g.sectorsPerCluster (le_refl _)).does
  rw [Nat.sub_self, fillSectors_zero, ← hfilled] at hfill
  have hzero : filled (g.dataLba fresh 0) = Sector.zero := by
    rw [hfilled]
    refine if_pos ⟨le_refl _, ?_⟩
    have hpos := hg.spcPos
    unfold BpbGeometry.dataLba
    omega
  -- the two entries are put one after the other
  have hdisk : Function.update filled (g.dataLba fresh 0) (dotSector fresh target) =
      putSlot (putSlot filled ⟨g.dataLba fresh 0, 0⟩ (dotEntry 1 fresh)) ⟨g.dataLba fresh 0, 32⟩ (dotEntry 2 target) := by
    unfold putSlot
    dsimp only
    rw [Function.update_self, Function.update_idem, hzero]
    rfl
  have haligned : ∀ j < 16, Aligned ⟨g.dataLba fresh 0, j * 32⟩ := fun j hj => ⟨j, hj, rfl⟩
  obtain ⟨d', hd'⟩ : ∃ d', d' = Function.update filled (g.dataLba fresh 0) (dotSector fresh target) := ⟨_, rfl⟩
  rw [← hd'] at hdisk
  have hfirst : entryAt d' ⟨g.dataLba fresh 0, 0⟩ = dotEntry 1 fresh := by
    rw [hdisk, entryAt_putSlot_ne (haligned 1 (by decide)) (haligned 0 (by decide)) (by simp),
      entryAt_putSlot_self (haligned 0 (by decide))]
  have hsecond : entryAt d' ⟨g.dataLba fresh 0, 32⟩ = dotEntry 2 target := by
    rw [hdisk, entryAt_putSlot_self (haligned 1 (by decide))]
  have hthird : (entryAt d' ⟨g.dataLba fresh 0, 64⟩).byte 0 = 0 := by
    rw [hdisk, entryAt_putSlot_ne (haligned 1 (by decide)) (haligned 2 (by decide)) (by simp),
      entryAt_putSlot_ne (haligned 0 (by decide)) (haligned 2 (by decide)) (by simp)]
    unfold entryAt
    rw [hzero]
    rfl
  have honly : OnlyData g [fresh] d d' := by
    intro lba hout
    have hother := hout fresh List.mem_cons_self
    rw [hd', Function.update_of_ne (hother 0 hg.spcPos), hfilled]
    refine if_neg fun hin => hother (lba - g.dataLba fresh 0) ?_ ?_
    all_goals
      unfold BpbGeometry.dataLba at hin ⊢
      omega
  refine ⟨d', ?_, honly, ?_⟩
  · unfold prepareDirectory
    refine .bind hfill ?_
    rw [directoryLba_eq hg hfresh hg.spcPos, ← htarget, hd']
    exact .write .data (dataLba_bounds hg hfresh hg.spcPos).2.1 _
  · have hl' : Chain g d' fresh [fresh] := hl.congr fun x _ => honly.link hg (fun y hy => hl.valid y hy) x
    have hfirst' : slotUsed d' ⟨g.dataLba fresh 0, 0⟩ = true ∧ idle d' ⟨g.dataLba fresh 0, 0⟩ = true := by
      unfold slotUsed idle
      rw [hfirst, isDotEntry_dotEntry (Or.inl rfl), Bool.or_true]
      exact ⟨decide_eq_true (dotEntry_used (by decide)), rfl⟩
    have hsecond' : slotUsed d' ⟨g.dataLba fresh 0, 32⟩ = true ∧ idle d' ⟨g.dataLba fresh 0, 32⟩ = true := by
      unfold slotUsed idle
      rw [hsecond, isDotEntry_dotEntry (Or.inr rfl), Bool.or_true]
      exact ⟨decide_eq_true (dotEntry_used (by decide)), rfl⟩
    have hend : slotUsed d' ⟨g.dataLba fresh 0, 64⟩ = false := decide_eq_false (not_not.mpr hthird)
    have hinUse : inUse d' ([⟨g.dataLba fresh 0, 0⟩, ⟨g.dataLba fresh 0, 32⟩] ++ ⟨g.dataLba fresh 0, 64⟩ :: rest) =
        [⟨g.dataLba fresh 0, 0⟩, ⟨g.dataLba fresh 0, 32⟩] := inUse_end (by simp [hfirst'.1, hsecond'.1]) hend
    rw [usedSlots_chain hl', dirSlots_singleton, hslots]
    show (inUse d' ([⟨g.dataLba fresh 0, 0⟩, ⟨g.dataLba fresh 0, 32⟩] ++ ⟨g.dataLba fresh 0, 64⟩ :: rest)).all (idle d') = true
    rw [hinUse]
    simp [hfirst'.2, hsecond'.2]

end NewDirectory

end Linux95.Fat32
