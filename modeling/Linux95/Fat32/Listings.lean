import Linux95.Storage.Effects
import Linux95.Fat32.Directories

/-! What a directory lists: the streaming scan of `list_directory` and the indexed scan of
`read_directory_entry` see the same entries. -/

namespace Linux95.Fat32
open Base Storage Write

def slotEntries (d : Disk) : List DirectorySlot → List FileEntry × Bool
  | [] => ([], false)
  | slot :: rest =>
    match decodeDirectoryEntry (entryAt d slot) with
    | .end => ([], true)
    | .skip => slotEntries d rest
    | .normal entry => (entry.toFileEntry :: (slotEntries d rest).1, (slotEntries d rest).2)

/-- The entries of the first `n` clusters of a directory, and how the listing ends. -/
def chainEntries (g : BpbGeometry) (d : Disk) : Nat → Nat → List FileEntry × Status
  | 0, _ => ([], .corrupt)
  | n + 1, c =>
    if validCluster g c then
      if (slotEntries d (clusterSlots g c)).2 then ((slotEntries d (clusterSlots g c)).1, .ok)
      else
        match activeNext g d c with
        | none => ((slotEntries d (clusterSlots g c)).1, .corrupt)
        | some none => ((slotEntries d (clusterSlots g c)).1, .ok)
        | some (some next) =>
          ((slotEntries d (clusterSlots g c)).1 ++ (chainEntries g d n next).1,
            (chainEntries g d n next).2)
    else ([], .corrupt)

def collect (entry : FileEntry) (seen : List FileEntry) : Bool × List FileEntry :=
  (true, seen ++ [entry])

theorem slotEntries_append (d : Disk) : ∀ l l', slotEntries d (l ++ l') =
    if (slotEntries d l).2 then slotEntries d l
    else ((slotEntries d l).1 ++ (slotEntries d l').1, (slotEntries d l').2)
  | [], l' => rfl
  | slot :: l, l' => by
    have hrest := slotEntries_append d l l'
    rw [List.cons_append, slotEntries, slotEntries]
    cases decodeDirectoryEntry (entryAt d slot) with
    | «end» => rfl
    | skip => exact hrest
    | normal entry =>
      dsimp only
      rw [hrest]
      split_ifs <;> rfl

theorem length_slotEntries_le (d : Disk) : ∀ l, (slotEntries d l).1.length ≤ l.length
  | [] => le_refl _
  | slot :: l => by
    have hrest := length_slotEntries_le d l
    rw [slotEntries]
    cases decodeDirectoryEntry (entryAt d slot) with
    | «end» => exact Nat.zero_le _
    | skip => exact hrest.trans (Nat.le_succ _)
    | normal entry => exact Nat.succ_le_succ hrest

theorem emitSlots_collect (lba : Nat) (d : Disk) : ∀ n m seen,
    emitSlots collect (d lba) n (m * 32) seen =
      (seen ++ (slotEntries d (slotsFrom lba m n)).1, (slotEntries d (slotsFrom lba m n)).2)
  | 0, _, seen => by
    rw [show slotsFrom lba _ 0 = [] from rfl, slotEntries, List.append_nil]
    rfl
  | n + 1, m, seen => by
    have hrest : ∀ seen', emitSlots collect (d lba) n (m * 32 + 32) seen' =
        (seen' ++ (slotEntries d (slotsFrom lba (m + 1) n)).1,
          (slotEntries d (slotsFrom lba (m + 1) n)).2) := by
      intro seen'
      rw [← emitSlots_collect lba d n (m + 1) seen', Nat.succ_mul]
    rw [show slotsFrom lba m (n + 1) = ⟨lba, m * 32⟩ :: slotsFrom lba (m + 1) n from rfl, slotEntries,
      emitSlots, show entryAt d ⟨lba, m * 32⟩ = Sector.slot (d lba) (m * 32) from rfl]
    cases decodeDirectoryEntry (Sector.slot (d lba) (m * 32)) with
    | «end» =>
      dsimp only
      rw [List.append_nil]
    | skip => exact hrest seen
    | normal entry =>
      have hmore : (collect entry.toFileEntry seen).1 = true := rfl
      dsimp only
      rw [if_pos hmore, show (collect entry.toFileEntry seen).2 = seen ++ [entry.toFileEntry] from rfl,
        hrest, List.append_assoc]
      rfl

section Scan
variable {g : BpbGeometry} {n : Nat} (hg : g.Sound n) (d : Disk)
include hg

theorem does_emitSectors {c : Nat} (hc : validCluster g c = true) :
    ∀ m i seen, i + m = g.sectorsPerCluster →
      Does g.totalSectors
        (emitSectors collect (g.firstDataLba + (c - 2) * g.sectorsPerCluster) m i seen) d
        (.ok (seen ++ (slotEntries d (sectorSlots g c i m)).1,
          if (slotEntries d (sectorSlots g c i m)).2 then some .ok else none)) d
  | 0, i, seen, _ => by
    rw [show sectorSlots g c i 0 = [] from rfl, slotEntries, List.append_nil]
    exact .pure _
  | m + 1, i, seen, him => by
    obtain ⟨-, hhi, -⟩ := dataLba_bounds hg hc (show i < g.sectorsPerCluster by omega)
    have htot := hg.totalLt
    have hadd : checkedAddU32 (g.firstDataLba + (c - 2) * g.sectorsPerCluster) i =
        some (g.dataLba c i) := checkedAddU32_eq (by unfold BpbGeometry.dataLba at hhi; omega)
    have hslots := emitSlots_collect (g.dataLba c i) d 16 0 seen
    have hrest := does_emitSectors hc m (i + 1)
      (seen ++ (slotEntries d (slotsFrom (g.dataLba c i) 0 16)).1) (by omega)
    rw [Nat.zero_mul] at hslots
    unfold emitSectors
    rw [hadd]
    refine Does.bind (Does.attempt (Does.of_value (.read hhi) (value_readSector _ _))) ?_
    dsimp only
    rw [hslots, show sectorSlots g c i (m + 1) =
      slotsFrom (g.dataLba c i) 0 16 ++ sectorSlots g c (i + 1) m from rfl, slotEntries_append]
    dsimp only
    by_cases hend : (slotEntries d (slotsFrom (g.dataLba c i) 0 16)).2 = true
    · rw [if_pos hend, if_pos hend, if_pos hend]
      exact .pure _
    · rw [if_neg hend, if_neg hend]
      rw [List.append_assoc] at hrest
      exact hrest

theorem does_emitClusters : ∀ m c seen,
    Does g.totalSectors (emitClusters g collect m c seen) d
      (.ok (seen ++ (chainEntries g d m c).1, (chainEntries g d m c).2)) d
  | 0, c, seen => by
    rw [chainEntries, List.append_nil]
    exact .pure _
  | m + 1, c, seen => by
    rw [emitClusters, chainEntries, validDataCluster_eq]
    by_cases hc : validCluster g c = true
    · have hsectors := does_emitSectors hg d hc g.sectorsPerCluster 0 seen (by omega)
      have hnext := Does.attempt (Does.of_value (reads_nextCluster hg c) (value_activeNext hg c d))
      rw [if_neg (by simpa using hc), if_pos hc, clusterToLba_eq hg hc]
      refine Does.bind hsectors ?_
      rw [show sectorSlots g c 0 g.sectorsPerCluster = clusterSlots g c from rfl]
      split_ifs with hend
      · exact .pure _
      · refine Does.bind hnext ?_
        cases activeNext g d c with
        | none => exact .pure _
        | some next =>
          cases next with
          | none => exact .pure _
          | some next =>
            have hrest := does_emitClusters m next (seen ++ (slotEntries d (clusterSlots g c)).1)
            rw [List.append_assoc] at hrest
            exact hrest
    · rw [if_pos (by simpa using hc), if_neg hc, List.append_nil]
      exact .pure _

def atIndex (index : Nat) (entry : DirectoryEntry) (logicalIndex : Nat) :
    Nat ⊕ Option DirectoryEntry :=
  if logicalIndex = index then .inr (some entry) else .inl ((logicalIndex + 1) % 2 ^ 32)

def listed (listing : List FileEntry × Status) (index : Nat) : Except Status (Option FileEntry) :=
  match listing.1[index]? with
  | some entry => .ok (some entry)
  | none => if listing.2 = .ok then .ok none else .error listing.2

omit hg in
theorem listed_inside {es : List FileEntry} {index : Nat} {e : FileEntry} (status : Status)
    (h : es[index]? = some e) : listed (es, status) index = .ok (some e) := by
  unfold listed
  rw [h]

omit hg in
theorem listed_past {es : List FileEntry} {index : Nat} (status : Status) (h : es.length ≤ index) :
    listed (es, status) index = if status = .ok then .ok none else .error status := by
  unfold listed
  rw [List.getElem?_eq_none h]

omit hg in
theorem visitSlots_atIndex {index : Nat} (hindex : index < 2 ^ 32) : ∀ l k, k ≤ index →
    (∀ e, (slotEntries d l).1[index - k]? = some e →
      ∃ entry, visitSlots (atIndex index) (fun _ => none) d l k = .inr (some entry) ∧
        entry.toFileEntry = e) ∧
    ((slotEntries d l).1.length ≤ index - k →
      visitSlots (atIndex index) (fun _ => none) d l k =
        if (slotEntries d l).2 then .inr none else .inl (k + (slotEntries d l).1.length))
  | [], k, _ => by
    refine ⟨fun e he => ?_, fun _ => rfl⟩
    cases he
  | slot :: l, k, hk => by
    rw [slotEntries, visitSlots]
    cases decodeDirectoryEntry (entryAt d slot) with
    | «end» =>
      refine ⟨fun e he => ?_, fun _ => rfl⟩
      cases he
    | skip => exact visitSlots_atIndex hindex l k hk
    | normal entry =>
      dsimp only
      by_cases heq : k = index
      · have hvisit : atIndex index entry k = .inr (some entry) := if_pos heq
        rw [hvisit, heq, Nat.sub_self]
        refine ⟨fun e he => ⟨entry, rfl, Option.some.inj he⟩, fun hle => ?_⟩
        rw [List.length_cons] at hle
        omega
      · have hvisit : atIndex index entry k = .inl (k + 1) := by
          unfold atIndex
          rw [if_neg heq, Nat.mod_eq_of_lt (by omega)]
        obtain ⟨hfound, hpast⟩ := visitSlots_atIndex hindex l (k + 1) (by omega)
        rw [hvisit, show index - k = index - (k + 1) + 1 by omega, List.getElem?_cons_succ]
        refine ⟨hfound, fun hle => ?_⟩
        rw [List.length_cons] at hle ⊢
        dsimp only
        rw [hpast (by omega), show k + 1 + (slotEntries d l).1.length =
          k + ((slotEntries d l).1.length + 1) by omega]

theorem value_walkClusters_atIndex {index : Nat} (hindex : index < 2 ^ 32) : ∀ m c k, k ≤ index →
    (value (walkClusters g (atIndex index) (fun _ => none) m c k) d).map
        (Option.map DirectoryEntry.toFileEntry) =
      listed (chainEntries g d m c) (index - k)
  | 0, c, k, _ => rfl
  | m + 1, c, k, hk => by
    rw [chainEntries]
    by_cases hc : validCluster g c = true
    · obtain ⟨hfound, hpast⟩ := visitSlots_atIndex d hindex (clusterSlots g c) k hk
      rw [if_pos hc, value_walkClusters_active hg _ _ d hc]
      generalize slotEntries d (clusterSlots g c) = r at hfound hpast
      by_cases hin : index - k < r.1.length
      · -- the entry is in this cluster, and what follows is not looked at
        have hget := List.getElem?_eq_getElem hin
        obtain ⟨entry, hvisit, hentry⟩ := hfound _ hget
        have hrest : ∀ rest, (r.1 ++ rest)[index - k]? = some r.1[index - k] := fun rest => by
          rw [List.getElem?_append_left hin, hget]
        rw [hvisit]
        change Except.ok (some entry.toFileEntry) = _
        rw [hentry]
        split_ifs
        · exact (listed_inside _ hget).symm
        · cases activeNext g d c with
          | none => exact (listed_inside _ hget).symm
          | some next =>
            cases next with
            | none => exact (listed_inside _ hget).symm
            | some next => exact (listed_inside _ (hrest _)).symm
      · have hle : r.1.length ≤ index - k := Nat.le_of_not_lt hin
        rw [hpast hle]
        split_ifs with hend
        · exact Eq.trans rfl (listed_past .ok hle).symm
        · cases activeNext g d c with
          | none => exact Eq.trans rfl (listed_past .corrupt hle).symm
          | some next =>
            cases next with
            | none => exact Eq.trans rfl (listed_past .ok hle).symm
            | some next =>
              have hrest := value_walkClusters_atIndex hindex m next (k + r.1.length) (by omega)
              refine hrest.trans ?_
              unfold listed
              dsimp only
              rw [List.getElem?_append_right hle, show index - (k + r.1.length) =
                index - k - r.1.length by omega]
    · rw [if_neg hc, walkClusters, if_pos (by simpa [validDataCluster_eq] using hc)]
      rfl

end Scan

section Status
variable {g : BpbGeometry} {n : Nat} (hg : g.Sound n) (d : Disk)
include hg

theorem walkClusters_not_ok {κ ρ : Type} (visit : DirectoryEntry → κ → κ ⊕ ρ) (atEnd : κ → ρ) :
    ∀ m c k, value (walkClusters g visit atEnd m c k) d ≠ .error .ok
  | 0, _, _ => by
    intro h
    cases h
  | m + 1, c, k => by
    by_cases hc : validCluster g c = true
    · rw [value_walkClusters_active hg visit atEnd d hc]
      cases visitSlots visit atEnd d (clusterSlots g c) k with
      | inr r =>
        intro h
        cases h
      | inl k' =>
        cases activeNext g d c with
        | none =>
          intro h
          cases h
        | some next =>
          cases next with
          | none =>
            intro h
            cases h
          | some next => exact walkClusters_not_ok visit atEnd m next k'
    · rw [walkClusters, if_pos (by simpa [validDataCluster_eq] using hc)]
      intro h
      cases h

theorem findEntry_not_ok (c : Nat) (wanted : CString) :
    value (findEntry g c wanted) d ≠ .error .ok := by
  unfold findEntry
  rw [value_bind (reads_walkClusters hg _ _ _ _ _)]
  intro h
  cases hwalk : value (walkClusters g (fun entry () =>
      if asciiIequals entry.name wanted then .inr (some entry) else .inl ()) (fun _ => none)
      g.clusterCount c ()) d with
  | error e =>
    rw [hwalk] at h
    obtain rfl := Except.error.inj h
    exact walkClusters_not_ok hg d _ _ _ _ _ hwalk
  | ok found =>
    rw [hwalk] at h
    cases found <;> cases h

theorem resolveComponents_not_ok : ∀ c components,
    value (resolveComponents g c components) d ≠ .error .ok
  | _, [] => by
    intro h
    cases h
  | c, component :: rest => by
    unfold resolveComponents
    by_cases hlong : component.length > 12
    · rw [if_pos hlong]
      intro h
      cases h
    · rw [if_neg hlong, value_bind (reads_findEntry hg _ _)]
      cases hfind : value (findEntry g c component) d with
      | error e =>
        intro h
        obtain rfl := Except.error.inj h
        exact findEntry_not_ok hg d c component hfind
      | ok entry =>
        change value (if rest = [] then pure entry else _) d ≠ _
        rw [value_ite, value_ite, value_ite]
        split_ifs
        · intro h
          cases h
        · intro h
          cases h
        · intro h
          cases h
        · exact resolveComponents_not_ok _ rest

theorem reads_resolveDirectoryCluster (path : Option CString) :
    Reads g.totalSectors (resolveDirectoryCluster (some g) path) := by
  cases path with
  | none => exact .throw _
  | some path =>
    refine reads_ite (fun _ => .pure _) fun _ => .bind (reads_resolveEntry hg _) fun _ => ?_
    exact reads_ite (fun _ => .throw _) fun _ => reads_ite (fun _ => .throw _) fun _ => .pure _

theorem resolveDirectoryCluster_not_ok (path : Option CString) :
    value (resolveDirectoryCluster (some g) path) d ≠ .error .ok := by
  cases path with
  | none => exact fun h => (nomatch h)
  | some path =>
    unfold resolveDirectoryCluster
    dsimp only
    rw [value_ite]
    split_ifs
    · exact fun h => (nomatch h)
    · rw [value_bind (reads_resolveEntry hg _)]
      cases hres : value (resolveEntry (some g) (some path)) d with
      | error e =>
        intro h
        obtain rfl := Except.error.inj h
        unfold resolveEntry at hres
        dsimp only at hres
        rw [value_ite] at hres
        split_ifs at hres
        · cases hres
        · exact resolveComponents_not_ok hg d _ _ hres
      | ok entry =>
        change value (if !entry.isDirectory then throw .notDirectory else _) d ≠ _
        rw [value_ite, value_ite]
        split_ifs <;> exact fun h => (nomatch h)

end Status

def listing (g : BpbGeometry) (d : Disk) (path : Option CString) : List FileEntry × Status :=
  match value (resolveDirectoryCluster (some g) path) d with
  | .error status => ([], status)
  | .ok c => chainEntries g d g.clusterCount c

section Listing
variable {g : BpbGeometry} {n : Nat} (hg : g.Sound n) (d : Disk) (path : Option CString)
include hg

theorem does_listDirectory :
    Does g.totalSectors (listDirectory (some g) path (some collect) []) d (.ok (listing g d path)) d := by
  unfold listDirectory listing
  refine Does.bind (Does.attempt (Does.of_reads (reads_resolveDirectoryCluster hg path))) ?_
  cases value (resolveDirectoryCluster (some g) path) d with
  | error status => exact .pure _
  | ok c => exact does_emitClusters hg d g.clusterCount c []

theorem value_readDirectoryEntry {index : Nat} (hindex : index < 2 ^ 32) :
    value (Fat32.readDirectoryEntry (some g) path index) d = listed (listing g d path) index := by
  have hreads := reads_resolveDirectoryCluster hg path
  unfold Fat32.readDirectoryEntry listing
  dsimp only
  rw [value_bind hreads]
  cases hres : value (resolveDirectoryCluster (some g) path) d with
  | error status =>
    have hne : status ≠ .ok := fun h => resolveDirectoryCluster_not_ok hg d path (h ▸ hres)
    dsimp only
    rw [listed_past status (Nat.zero_le index), if_neg hne]
    rfl
  | ok c =>
    have hscan := value_walkClusters_atIndex hg d hindex g.clusterCount c 0 (Nat.zero_le _)
    change value (readDirectoryEntryAt g c index >>= _) d = _
    rw [show readDirectoryEntryAt g c index =
        walkClusters g (atIndex index) (fun _ => none) g.clusterCount c 0 from rfl,
      value_bind (reads_walkClusters hg _ _ _ _ _)]
    refine Eq.trans ?_ hscan
    cases value (walkClusters g (atIndex index) (fun _ => none) g.clusterCount c 0) d <;> rfl

omit hg in
theorem length_clusterSlots (c : Nat) : (clusterSlots g c).length = g.sectorsPerCluster * 16 := by
  unfold clusterSlots sectorSlots
  rw [List.length_flatMap]
  simp [slotsFrom]

omit hg in
theorem length_chainEntries_le : ∀ m c,
    (chainEntries g d m c).1.length ≤ m * (g.sectorsPerCluster * 16)
  | 0, _ => Nat.zero_le _
  | m + 1, c => by
    have hslots := length_slotEntries_le d (clusterSlots g c)
    rw [length_clusterSlots] at hslots
    rw [chainEntries, Nat.succ_mul]
    split_ifs
    · exact hslots.trans (Nat.le_add_left _ _)
    · cases activeNext g d c with
      | none => exact hslots.trans (Nat.le_add_left _ _)
      | some next =>
        cases next with
        | none => exact hslots.trans (Nat.le_add_left _ _)
        | some next =>
          have hrest := length_chainEntries_le m next
          dsimp only
          rw [List.length_append]
          omega
    · exact Nat.zero_le _

theorem length_listing_lt (hlba : g.totalSectors ≤ 2 ^ 28) : (listing g d path).1.length < 2 ^ 32 := by
  -- a drive addressed by 28 bits holds fewer entries than `readdir` can count
  unfold listing
  cases value (resolveDirectoryCluster (some g) path) d with
  | error status => exact Nat.pow_pos (by decide)
  | ok c =>
    have hle := length_chainEntries_le (g := g) d g.clusterCount c
    have hdiv : g.clusterCount * g.sectorsPerCluster ≤ g.totalSectors - g.firstDataLba := by
      rw [hg.countEq]
      exact Nat.div_mul_le_self _ _
    have hfirst : 0 < g.firstDataLba := by
      have := hg.firstDataEq
      have := hg.fatBeginPos
      omega
    rw [← Nat.mul_assoc] at hle
    dsimp only
    omega

end Listing

end Linux95.Fat32
