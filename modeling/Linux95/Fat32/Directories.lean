import Linux95.Fat32.Lookups

/-! The disk as both paths see it: entries of the FAT copies, links of a chain, and the slots of a
directory. The directory walks are functions of these. -/

namespace Linux95.Fat32
open Base Storage Write

abbrev Disk := Nat → Sector

def fatEntry (g : BpbGeometry) (d : Disk) (k c : Nat) : Nat :=
  le32 (d (g.fatLba k c)).byte (c % 128 * 4)

def kindLink (g : BpbGeometry) (v : Nat) : FatEntryKind → Option (Option Nat)
  | .endOfChain => some none
  | .next => if validCluster g v then some (some v) else none
  | _ => none

/-- The link an entry stands for: `some none` is the end of a chain, `none` is no link. -/
def linkOf (g : BpbGeometry) (raw : Nat) : Option (Option Nat) :=
  kindLink g (fat28 raw) (classifyFatEntry (fat28 raw))

def link (g : BpbGeometry) (d : Disk) (c : Nat) : Option (Option Nat) :=
  if validCluster g c then linkOf g (fatEntry g d 0 c) else none

def activeNext (g : BpbGeometry) (d : Disk) (c : Nat) : Option (Option Nat) :=
  if validCluster g c then linkOf g (fatEntry g d g.activeFat c) else none

def entryAt (d : Disk) (slot : DirectorySlot) : Entry := Sector.slot (d slot.lba) slot.offset

def slotsFrom (lba m n : Nat) : List DirectorySlot :=
  (List.range' m n).map fun j => ⟨lba, j * 32⟩

def sectorSlots (g : BpbGeometry) (c i n : Nat) : List DirectorySlot :=
  (List.range' i n).flatMap fun j => slotsFrom (g.dataLba c j) 0 16

def clusterSlots (g : BpbGeometry) (c : Nat) : List DirectorySlot :=
  sectorSlots g c 0 g.sectorsPerCluster

def scanSlots (d : Disk) (name : ShortName) (cluster : Nat) :
    List DirectorySlot → FreeSearch → FreeSearch ⊕ Search
  | [], st => .inl st
  | slot :: rest, st =>
    if (entryAt d slot).byte 0 = 0 then .inr (.notFound (st.note (entryAt d slot) slot) cluster)
    else if liveShortEntry (entryAt d slot) ∧ nameMatches (entryAt d slot) name then
      .inr (.found slot (entryAt d slot))
    else scanSlots d name cluster rest (st.note (entryAt d slot) slot)

def visitSlots {κ ρ : Type} (visit : DirectoryEntry → κ → κ ⊕ ρ) (atEnd : κ → ρ) (d : Disk) :
    List DirectorySlot → κ → κ ⊕ ρ
  | [], k => .inl k
  | slot :: rest, k =>
    match decodeDirectoryEntry (entryAt d slot) with
    | .end => .inr (atEnd k)
    | .skip => visitSlots visit atEnd d rest k
    | .normal entry =>
      match visit entry k with
      | .inr r => .inr r
      | .inl k' => visitSlots visit atEnd d rest k'

theorem link_valid {g : BpbGeometry} {d : Disk} {c : Nat} {next : Option Nat}
    (h : link g d c = some next) : validCluster g c = true := by
  unfold link at h
  split_ifs at h with hc
  exact hc

theorem fat28_fat28 (v : Nat) : fat28 (fat28 v) = fat28 v := by
  unfold fat28
  omega

theorem linkOf_next {g : BpbGeometry} {raw next : Nat} (h : linkOf g raw = some (some next)) :
    next = fat28 raw ∧ classifyFatEntry (fat28 raw) = .next ∧ validCluster g next = true := by
  unfold linkOf at h
  cases hk : classifyFatEntry (fat28 raw) with
  | next =>
    rw [hk, kindLink] at h
    split_ifs at h with hv
    rw [Option.some.injEq, Option.some.injEq] at h
    exact ⟨h.symm, rfl, h ▸ hv⟩
  | _ =>
    rw [hk] at h
    exact nomatch h

theorem link_next_valid {g : BpbGeometry} {d : Disk} {c next : Nat}
    (h : link g d c = some (some next)) : validCluster g next = true := by
  unfold link at h
  split_ifs at h
  exact (linkOf_next h).2.2

def linkResult : Option (Option Nat) → Except Status (Option Nat)
  | none => .error .corrupt
  | some next => .ok next

@[simp] theorem linkResult_none : linkResult none = .error .corrupt := rfl

@[simp] theorem linkResult_some (next : Option Nat) : linkResult (some next) = .ok next := rfl

theorem findInSlots_eq (name : ShortName) (c lba : Nat) (d : Disk) : ∀ n m st,
    findInSlots name c lba (d lba) n (m * 32) st = scanSlots d name c (slotsFrom lba m n) st
  | 0, _, _ => rfl
  | n + 1, m, st => by
    have hrest := findInSlots_eq name c lba d n (m + 1)
      (st.note (Sector.slot (d lba) (m * 32)) ⟨lba, m * 32⟩)
    rw [Nat.succ_mul] at hrest
    unfold findInSlots slotsFrom
    rw [List.range'_succ, List.map_cons, scanSlots, entryAt]
    dsimp only
    rw [hrest]
    rfl

theorem scanSlots_append (name : ShortName) (c : Nat) (d : Disk) : ∀ l l' st,
    scanSlots d name c (l ++ l') st =
      match scanSlots d name c l st with
      | .inr r => .inr r
      | .inl st' => scanSlots d name c l' st'
  | [], _, _ => rfl
  | slot :: l, l', st => by
    rw [List.cons_append, scanSlots, scanSlots]
    split_ifs
    · rfl
    · rfl
    · exact scanSlots_append name c d l l' _

section Walk
variable {κ ρ : Type} (visit : DirectoryEntry → κ → κ ⊕ ρ) (atEnd : κ → ρ) (d : Disk)

theorem walkSlots_eq (lba : Nat) : ∀ n m k,
    walkSlots visit atEnd (d lba) n (m * 32) k = visitSlots visit atEnd d (slotsFrom lba m n) k
  | 0, _, _ => rfl
  | n + 1, m, k => by
    have hrest : ∀ k', walkSlots visit atEnd (d lba) n (m * 32 + 32) k' =
        visitSlots visit atEnd d (slotsFrom lba (m + 1) n) k' := by
      intro k'
      rw [← walkSlots_eq lba n (m + 1) k', Nat.succ_mul]
    unfold walkSlots slotsFrom
    rw [List.range'_succ, List.map_cons, visitSlots, entryAt]
    cases decodeDirectoryEntry (Sector.slot (d lba) (m * 32)) with
    | «end» => rfl
    | skip => exact hrest k
    | normal entry =>
      dsimp only
      cases visit entry k with
      | inr r => rfl
      | inl k' => exact hrest k'

theorem visitSlots_append : ∀ l l' k,
    visitSlots visit atEnd d (l ++ l') k =
      match visitSlots visit atEnd d l k with
      | .inr r => .inr r
      | .inl k' => visitSlots visit atEnd d l' k'
  | [], _, _ => rfl
  | slot :: l, l', k => by
    rw [List.cons_append, visitSlots, visitSlots]
    cases decodeDirectoryEntry (entryAt d slot) with
    | «end» => rfl
    | skip => exact visitSlots_append l l' k
    | normal entry =>
      dsimp only
      cases visit entry k with
      | inr r => rfl
      | inl k' => exact visitSlots_append l l' k'

end Walk

section Links
variable {g : BpbGeometry} {n : Nat} (hg : g.Sound n)
include hg

theorem value_readEntry {c k : Nat} (hc : validCluster g c = true) (hk : k < g.fatCount) (d : Disk) :
    value (readEntry g c k) d = .ok (fatEntry g d k c) := by
  unfold readEntry
  rw [entryLocation_eq hg hc hk]
  have hlt : g.fatLba k c < g.totalSectors :=
    (fatLba_bounds hg hc hk).2.2.trans hg.firstDataLt
  exact value_bind_ok (.read hlt) rfl _

theorem value_chainNext (c : Nat) (d : Disk) :
    value (chainNext g c false) d = linkResult (link g d c) := by
  by_cases hc : validCluster g c = true
  · have hread := value_readEntry hg hc hg.fatCountPos d
    have hcopies : value (checkCopies g c (fat28 (fatEntry g d 0 c)) 0) d = .ok () := rfl
    unfold chainNext link
    rw [if_pos hc, value_bind_ok (reads_readEntry _ _) hread]
    dsimp only
    rw [if_neg (by decide), value_bind_ok (reads_checkCopies _ _ _) hcopies]
    unfold linkOf
    generalize classifyFatEntry (fat28 (fatEntry g d 0 c)) = kind
    cases kind with
    | next =>
      dsimp only [kindLink]
      by_cases hv : validCluster g (fat28 (fatEntry g d 0 c)) = true
      · rw [if_pos hv, if_pos hv]
        rfl
      · rw [if_neg hv, if_neg hv]
        rfl
    | _ => rfl
  · have hread : value (readEntry g c 0) d = .error .corrupt := by
      unfold readEntry entryLocation
      rw [if_pos (Or.inl (by simpa using hc))]
      rfl
    unfold chainNext link
    rw [value_bind_error (reads_readEntry _ _) hread, if_neg hc]
    rfl

theorem value_activeNext (c : Nat) (d : Disk) :
    value (nextCluster g c) d = linkResult (activeNext g d c) := by
  by_cases hc : validCluster g c = true
  · obtain ⟨-, -, hlt⟩ := fatLba_bounds hg hc hg.activeLt
    have hread : value (readSector (g.fatLba g.activeFat c)) d = .ok (d (g.fatLba g.activeFat c)) := rfl
    unfold nextCluster activeNext
    rw [if_pos hc, fatEntryLocation_eq hg hc]
    dsimp only
    rw [if_neg (by simp [validDataCluster_eq, hc]), activeLocation_eq hg hc]
    dsimp only
    rw [if_neg (by omega), value_bind_ok (.read (hlt.trans hg.firstDataLt)) hread]
    unfold linkOf fatEntry
    generalize le32 (d (g.fatLba g.activeFat c)).byte (c % 128 * 4) = raw
    generalize classifyFatEntry (fat28 raw) = kind
    cases kind with
    | next =>
      dsimp only [kindLink]
      rw [validDataCluster_eq]
      by_cases hv : validCluster g (fat28 raw) = true
      · rw [if_pos hv, if_pos hv]
        rfl
      · rw [if_neg hv, if_neg hv]
        rfl
    | _ => rfl
  · unfold nextCluster activeNext
    rw [if_neg hc]
    split
    · rfl
    · rw [if_pos (by simpa [validDataCluster_eq] using hc)]
      rfl

omit hg in
theorem activeNext_eq (hm : g.activeFat = 0) (d : Disk) (c : Nat) :
    activeNext g d c = link g d c := by
  unfold activeNext link
  rw [hm]

theorem value_findInSectors (name : ShortName) {c : Nat} (hc : validCluster g c = true) (d : Disk) :
    ∀ m i st, i + m = g.sectorsPerCluster →
      value (findInSectors g name c m i st) d = .ok (scanSlots d name c (sectorSlots g c i m) st)
  | 0, _, _, _ => rfl
  | m + 1, i, st, him => by
    have hlba := directoryLba_eq hg hc (show i < g.sectorsPerCluster by omega)
    have hread : value (readSector (g.dataLba c i)) d = .ok (d (g.dataLba c i)) := rfl
    have hslots := findInSlots_eq name c (g.dataLba c i) d 16 0 st
    unfold findInSectors sectorSlots
    rw [hlba, List.range'_succ, List.flatMap_cons, scanSlots_append, ← hslots]
    dsimp only
    rw [value_bind_ok (.read (directoryLba_lt hlba)) hread, Nat.zero_mul]
    cases findInSlots name c (g.dataLba c i) (d (g.dataLba c i)) 16 0 st with
    | inr r => rfl
    | inl st' => exact value_findInSectors name hc d m (i + 1) st' (by omega)

theorem value_findInClusters (name : ShortName) (d : Disk) (n c : Nat) (st : FreeSearch) :
    value (findInClusters g name (n + 1) c st) d =
      linkResult (link g d c) >>= fun next =>
        match scanSlots d name c (clusterSlots g c) st with
        | .inr r => .ok r
        | .inl st' =>
          match next with
          | none => .ok (.notFound st' c)
          | some next => value (findInClusters g name n next st') d := by
  rw [findInClusters, value_bind (reads_chainNext _ _), value_chainNext hg]
  cases hl : link g d c with
  | none => rfl
  | some next =>
    have hscan := value_findInSectors hg name (link_valid hl) d g.sectorsPerCluster 0 st (by omega)
    change value (findInSectors g name c g.sectorsPerCluster 0 st >>= _) d = _
    rw [value_bind_ok (reads_findInSectors _ _ _ _ _) hscan]
    unfold clusterSlots
    rw [linkResult_some]
    cases scanSlots d name c (sectorSlots g c 0 g.sectorsPerCluster) st with
    | inr r => rfl
    | inl st' => cases next <;> rfl

section Walk
variable {κ ρ : Type} (visit : DirectoryEntry → κ → κ ⊕ ρ) (atEnd : κ → ρ) (d : Disk)

theorem value_walkSectors {c : Nat} (hc : validCluster g c = true) :
    ∀ m i k, i + m = g.sectorsPerCluster →
      value (walkSectors visit atEnd (g.firstDataLba + (c - 2) * g.sectorsPerCluster) m i k) d =
        .ok (visitSlots visit atEnd d (sectorSlots g c i m) k)
  | 0, _, _, _ => rfl
  | m + 1, i, k, him => by
    obtain ⟨-, hhi, -⟩ := dataLba_bounds hg hc (show i < g.sectorsPerCluster by omega)
    have htot := hg.totalLt
    have hread : value (readSector (g.dataLba c i)) d = .ok (d (g.dataLba c i)) := rfl
    have hslots := walkSlots_eq visit atEnd d (g.dataLba c i) 16 0 k
    have hadd : checkedAddU32 (g.firstDataLba + (c - 2) * g.sectorsPerCluster) i =
        some (g.dataLba c i) := checkedAddU32_eq (by unfold BpbGeometry.dataLba at hhi; omega)
    unfold walkSectors sectorSlots
    rw [hadd, List.range'_succ, List.flatMap_cons, visitSlots_append, ← hslots]
    dsimp only
    rw [value_bind_ok (.read hhi) hread, Nat.zero_mul]
    cases walkSlots visit atEnd (d (g.dataLba c i)) 16 0 k with
    | inr r => rfl
    | inl k' => exact value_walkSectors hc m (i + 1) k' (by omega)

theorem value_walkClusters_active {c : Nat} (hc : validCluster g c = true) (n : Nat) (k : κ) :
    value (walkClusters g visit atEnd (n + 1) c k) d =
      match visitSlots visit atEnd d (clusterSlots g c) k with
      | .inr r => .ok r
      | .inl k' => linkResult (activeNext g d c) >>= fun next =>
        match next with
        | none => .ok (atEnd k')
        | some next => value (walkClusters g visit atEnd n next k') d := by
  have hscan := value_walkSectors hg visit atEnd d hc g.sectorsPerCluster 0 k (by omega)
  unfold clusterSlots
  rw [walkClusters, if_neg (by simp [validDataCluster_eq, hc]), clusterToLba_eq hg hc]
  dsimp only
  rw [value_bind_ok (reads_walkSectors hg _ _ hc _ _ _ (by omega)) hscan]
  cases visitSlots visit atEnd d (sectorSlots g c 0 g.sectorsPerCluster) k with
  | inr r => rfl
  | inl k' =>
    dsimp only
    rw [value_bind (reads_nextCluster hg c), value_activeNext hg]
    cases activeNext g d c with
    | none => rfl
    | some next => cases next <;> rfl

theorem value_walkClusters (hm : g.activeFat = 0) {c : Nat} (hc : validCluster g c = true)
    (n : Nat) (k : κ) :
    value (walkClusters g visit atEnd (n + 1) c k) d =
      match visitSlots visit atEnd d (clusterSlots g c) k with
      | .inr r => .ok r
      | .inl k' => linkResult (link g d c) >>= fun next =>
        match next with
        | none => .ok (atEnd k')
        | some next => value (walkClusters g visit atEnd n next k') d := by
  rw [value_walkClusters_active hg visit atEnd d hc, activeNext_eq hm]

end Walk

end Links

end Linux95.Fat32
