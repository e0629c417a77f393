import Linux95.Storage.Values
import Linux95.Fat32.Geometry

/-! The functions of both paths that only read. -/

namespace Linux95.Fat32
open Base Storage Write

section Writer
variable {g : BpbGeometry}

theorem entryLocation_lt {c k lba inside : Nat} (h : entryLocation g c k = some (lba, inside)) :
    lba < g.totalSectors := by
  unfold entryLocation at h
  split_ifs at h
  simp only [Option.bind_eq_some_iff, Option.ite_none_right_eq_some, Option.some.injEq,
    Prod.mk.injEq] at h
  obtain ⟨_, -, _, -, _, -, hlt, rfl, -⟩ := h
  exact hlt.2

theorem directoryLba_lt {c i lba : Nat} (h : directoryLba g c i = some lba) :
    lba < g.totalSectors := by
  unfold directoryLba at h
  split_ifs at h
  simp only [Option.bind_eq_some_iff, Option.ite_none_right_eq_some, Option.some.injEq] at h
  obtain ⟨_, -, _, -, hlt, rfl⟩ := h
  exact hlt

theorem reads_readEntry (c k : Nat) : Reads g.totalSectors (readEntry g c k) := by
  unfold readEntry
  split
  · exact .throw _
  · rename_i h
    exact .bind (.read (entryLocation_lt h)) fun _ => .pure _

theorem reads_checkCopies (c v : Nat) : ∀ n, Reads g.totalSectors (checkCopies g c v n)
  | 0 => .pure _
  | n + 1 => by
    unfold checkCopies
    refine .bind (reads_readEntry _ _) fun _ => ?_
    exact reads_ite (fun _ => .throw _) fun _ => reads_checkCopies c v n

theorem reads_chainNext (c : Nat) (check : Bool) : Reads g.totalSectors (chainNext g c check) := by
  unfold chainNext
  refine .bind (reads_readEntry _ _) fun _ => .bind (reads_checkCopies _ _ _) fun _ => ?_
  split
  · exact .pure _
  · exact reads_ite (fun _ => .pure _) fun _ => .throw _
  · exact .throw _

theorem reads_findInSectors (name : ShortName) (c : Nat) : ∀ n i st,
    Reads g.totalSectors (findInSectors g name c n i st)
  | 0, _, _ => .pure _
  | n + 1, i, st => by
    unfold findInSectors
    split
    · exact .throw _
    · rename_i h
      refine .bind (.read (directoryLba_lt h)) fun _ => ?_
      split
      · exact .pure _
      · exact reads_findInSectors name c n _ _

theorem reads_findInClusters (name : ShortName) : ∀ n c st,
    Reads g.totalSectors (findInClusters g name n c st)
  | 0, _, _ => .throw _
  | n + 1, c, st => by
    unfold findInClusters
    refine .bind (reads_chainNext _ _) fun next => .bind (reads_findInSectors _ _ _ _ _) ?_
    rintro (st' | r)
    · cases next with
      | none => exact .pure _
      | some next => exact reads_findInClusters name n next st'
    · exact .pure _

theorem reads_findInDirectory (c : Nat) (name : ShortName) :
    Reads g.totalSectors (findInDirectory g c name) :=
  reads_ite (fun _ => .throw _) fun _ => reads_findInClusters _ _ _ _

theorem reads_emptySectors (c : Nat) : ∀ n i, Reads g.totalSectors (emptySectors g c n i)
  | 0, _ => .pure _
  | n + 1, i => by
    unfold emptySectors
    split
    · exact .throw _
    · rename_i h
      refine .bind (.read (directoryLba_lt h)) fun _ => ?_
      split
      · exact .throw _
      · exact .pure _
      · exact reads_emptySectors c n _

theorem reads_emptyClusters : ∀ n c past, Reads g.totalSectors (emptyClusters g n c past)
  | 0, _, _ => .throw _
  | n + 1, c, past => by
    unfold emptyClusters
    refine .bind (reads_chainNext _ _) fun next =>
      .bind (reads_ite (fun _ => .pure _) fun _ => reads_emptySectors _ _ _) fun _ => ?_
    cases next with
    | none => exact .pure _
    | some next => exact reads_emptyClusters n next _

theorem reads_directoryIsEmpty (c : Nat) : Reads g.totalSectors (directoryIsEmpty g c) :=
  reads_ite (fun _ => .throw _) fun _ => reads_emptyClusters _ _ _

theorem reads_validateChain : ∀ n c, Reads g.totalSectors (validateChain g n c)
  | 0, _ => .throw _
  | n + 1, c => by
    unfold validateChain
    refine .bind (reads_chainNext _ _) fun next => ?_
    cases next with
    | none => exact .pure _
    | some next => exact reads_validateChain n next

theorem reads_validateDirectoryChain (c : Nat) : Reads g.totalSectors (validateDirectoryChain g c) :=
  reads_ite (fun _ => .throw _) fun _ => reads_validateChain _ _

theorem reads_fileClusterCount (size clusterBytes limit : Nat) :
    Reads limit (fileClusterCount size clusterBytes) :=
  reads_ite (fun _ => .throw _) fun _ => reads_ite (fun _ => .throw _) fun _ => .pure _

theorem reads_validateLinks : ∀ n c, Reads g.totalSectors (validateLinks g n c)
  | 0, _ => .pure _
  | n + 1, c => by
    unfold validateLinks
    refine .bind (reads_chainNext _ _) fun next => ?_
    exact reads_ite (fun _ => .throw _) fun _ => reads_validateLinks n _

theorem reads_validateFileChain (e : Entry) (first : Nat) :
    Reads g.totalSectors (validateFileChain g e first) := by
  unfold validateFileChain
  split
  · exact .throw _
  · refine .bind (reads_fileClusterCount _ _ _) fun _ => ?_
    exact reads_ite (fun _ => .throw _) fun _ => reads_validateLinks _ _

theorem reads_checkRemovable (e : Entry) (first : Nat) :
    Reads g.totalSectors (checkRemovable g e first) :=
  reads_ite (fun _ => reads_directoryIsEmpty _) fun _ => reads_validateFileChain _ _

theorem reads_checkMovable (e : Entry) (first : Nat) :
    Reads g.totalSectors (checkMovable g e first) :=
  reads_ite (fun _ => reads_validateDirectoryChain _) fun _ => reads_validateFileChain _ _

theorem reads_validateOld (r : ResolvedPath) : Reads g.totalSectors (validateOld g r) :=
  reads_ite (fun _ => reads_validateFileChain _ _) fun _ => .pure _

theorem reads_resolveFrom : ∀ parent components,
    Reads g.totalSectors (resolveFrom g parent components)
  | _, [] => .throw _
  | parent, component :: rest => by
    unfold resolveFrom
    split
    · exact .throw _
    · refine .bind (reads_findInDirectory _ _) fun found => ?_
      cases found with
      | notFound free tail => exact reads_ite (fun _ => .pure _) fun _ => .throw _
      | found slot entry =>
        refine reads_ite (fun _ => .pure _) fun _ => reads_ite (fun _ => .throw _) fun _ => ?_
        exact reads_ite (fun _ => .throw _) fun _ => reads_resolveFrom _ rest

theorem geometryForWrite_bind {α : Type} (f : BpbGeometry → Io α) :
    (geometryForWrite (some g) >>= f) =
      if g.mirroringEnabled = true then f g else throw .unsupported := by
  cases hm : g.mirroringEnabled with
  | false =>
    have hthrow : geometryForWrite (some g) = throw .unsupported := by simp [geometryForWrite, hm]
    rw [hthrow]
    rfl
  | true =>
    have hpure : geometryForWrite (some g) = pure g := by simp [geometryForWrite, hm]
    rw [hpure, pure_bind]
    rfl

theorem reads_resolvePath (path : Option CString) :
    Reads g.totalSectors (resolvePath (some g) path) := by
  cases path with
  | none => exact .throw _
  | some path =>
    refine reads_ite (fun _ => .throw _) fun _ => reads_ite (fun _ => .throw _) fun _ => ?_
    refine reads_ite (fun _ => .throw _) fun _ => ?_
    rw [geometryForWrite_bind]
    exact reads_ite (fun _ => reads_resolveFrom _ _) fun _ => .throw _

theorem reads_readDirectoryEntry (slot : DirectorySlot) :
    Reads g.totalSectors (Write.readDirectoryEntry (some g) slot) := by
  unfold Write.readDirectoryEntry
  rw [geometryForWrite_bind]
  refine reads_ite (fun _ => reads_ite (fun _ => .throw _) fun hv => ?_) fun _ => .throw _
  have hlt : slot.lba < g.totalSectors := by
    simp only [validSlot, Bool.and_eq_true, decide_eq_true_eq, Bool.not_eq_true',
      Bool.not_eq_false] at hv
    exact hv.1.1.2
  exact .bind (.read hlt) fun _ => .pure _

theorem reads_readFatEntry (c : Nat) : Reads g.totalSectors (readFatEntry (some g) c) :=
  .bind (reads_readEntry _ _) fun _ => .pure _

theorem reads_readCopies (c : Nat) : ∀ n old, Reads g.totalSectors (readCopies g c n old)
  | 0, _ => .pure _
  | n + 1, old => by
    unfold readCopies
    refine .bind (reads_readEntry _ _) fun _ => ?_
    exact reads_ite (fun _ => .throw _) fun _ => reads_readCopies c n _

theorem reads_nextMarker (vacant : DirectorySlot) (tail : Nat) :
    Reads g.totalSectors (nextMarker g vacant tail) := by
  refine reads_ite (fun _ => .pure _) fun _ => reads_ite (fun _ => .pure _) fun _ => ?_
  refine .bind (reads_chainNext _ _) fun next => ?_
  cases next with
  | none => exact .pure _
  | some next =>
    refine .bind (reads_chainNext _ _) fun _ => ?_
    split
    · exact .throw _
    · exact .pure _

theorem reads_markerFor (free : FreeSearch) (tail : Nat) :
    Reads g.totalSectors (markerFor g free tail) :=
  reads_ite (fun _ => reads_nextMarker _ _) fun _ => .pure _

end Writer

section Reader
variable {g : BpbGeometry} {n : Nat} (hg : g.Sound n)
include hg

theorem reads_nextCluster (c : Nat) : Reads g.totalSectors (nextCluster g c) := by
  unfold nextCluster
  split
  · exact .throw _
  refine reads_ite (fun _ => .throw _) fun _ => ?_
  split
  · exact .throw _
  refine reads_ite (fun _ => .throw _) fun hlba => ?_
  have hlt := hg.firstDataLt
  refine .bind (.read (by omega)) fun _ => ?_
  dsimp only
  split
  · exact .pure _
  · exact reads_ite (fun _ => .pure _) fun _ => .throw _
  · exact .throw _

section Walk
variable {κ ρ : Type} (visit : DirectoryEntry → κ → κ ⊕ ρ) (atEnd : κ → ρ)

theorem reads_walkSectors {c : Nat} (hc : validCluster g c = true) : ∀ m i k,
    i + m = g.sectorsPerCluster → Reads g.totalSectors
      (walkSectors visit atEnd (g.firstDataLba + (c - 2) * g.sectorsPerCluster) m i k)
  | 0, _, _, _ => .pure _
  | m + 1, i, k, him => by
    obtain ⟨-, hhi, -⟩ := dataLba_bounds hg hc (show i < g.sectorsPerCluster by omega)
    have htot := hg.totalLt
    unfold BpbGeometry.dataLba at hhi
    unfold walkSectors
    rw [checkedAddU32_eq (by omega)]
    refine .bind (.read hhi) fun _ => ?_
    split
    · exact .pure _
    · exact reads_walkSectors hc m _ _ (by omega)

theorem reads_walkClusters : ∀ m c k, Reads g.totalSectors (walkClusters g visit atEnd m c k)
  | 0, _, _ => .throw _
  | m + 1, c, k => by
    unfold walkClusters
    refine reads_ite (fun _ => .throw _) fun hv => ?_
    have hc : validCluster g c = true := by simpa [validDataCluster_eq] using hv
    rw [clusterToLba_eq hg hc]
    refine .bind (reads_walkSectors hg visit atEnd hc _ _ _ (by omega)) ?_
    rintro (k' | r)
    · refine .bind (reads_nextCluster hg c) fun next => ?_
      cases next with
      | none => exact .pure _
      | some next => exact reads_walkClusters m next k'
    · exact .pure _

end Walk

theorem reads_findEntry (c : Nat) (wanted : CString) :
    Reads g.totalSectors (findEntry g c wanted) := by
  refine .bind (reads_walkClusters hg _ _ _ _ _) fun found => ?_
  cases found with
  | none => exact .throw _
  | some entry => exact .pure _

theorem reads_resolveComponents : ∀ c components,
    Reads g.totalSectors (resolveComponents g c components)
  | _, [] => .throw _
  | c, component :: rest => by
    unfold resolveComponents
    refine reads_ite (fun _ => .throw _) fun _ => .bind (reads_findEntry hg _ _) fun entry => ?_
    refine reads_ite (fun _ => .pure _) fun _ => reads_ite (fun _ => .throw _) fun _ => ?_
    exact reads_ite (fun _ => .throw _) fun _ => reads_resolveComponents _ rest

theorem reads_resolveEntry (path : Option CString) :
    Reads g.totalSectors (resolveEntry (some g) path) := by
  cases path with
  | none => exact .throw _
  | some path => exact reads_ite (fun _ => .throw _) fun _ => reads_resolveComponents hg _ _

end Reader

end Linux95.Fat32
