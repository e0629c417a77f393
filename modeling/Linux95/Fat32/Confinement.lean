import Linux95.Fat32.Lookups

/-! Where the writer writes. Every sector write of every operation lands in the area its kind of
update belongs to, on any disk contents and under any failures. So an invariant that reads keep,
and that writes inside the areas keep, is kept by every function and by every run. -/

namespace Linux95.Fat32.Write
open Base Storage

def InRegion (g : BpbGeometry) : Region × Nat → Prop
  | (.fat, lba) => g.fatBeginLba ≤ lba ∧ lba < g.firstDataLba
  | (.data, lba) => g.firstDataLba ≤ lba ∧ lba < g.totalSectors

structure Contained (g : BpbGeometry) (disk : Nat → Sector) (dev : Device) : Prop where
  written : ∀ w ∈ dev.written, InRegion g w
  outside : ∀ lba, lba < g.fatBeginLba ∨ g.totalSectors ≤ lba → dev.sectors lba = disk lba

section Addresses
variable {g : BpbGeometry} {n : Nat} (hg : g.Sound n) {disk : Nat → Sector}
include hg

theorem entryLocation_inRegion {c k lba inside : Nat}
    (h : entryLocation g c k = some (lba, inside)) : InRegion g (.fat, lba) := by
  have hk : validCluster g c = true ∧ k < g.fatCount := by
    unfold entryLocation at h
    split_ifs at h with h1
    simpa using h1
  rw [entryLocation_eq hg hk.1 hk.2, Option.some.injEq, Prod.mk.injEq] at h
  have hb := fatLba_bounds hg hk.1 hk.2
  exact ⟨by omega, by omega⟩

theorem directoryLba_inRegion {c i lba : Nat} (h : directoryLba g c i = some lba) :
    InRegion g (.data, lba) := by
  have hi : validCluster g c = true ∧ i < g.sectorsPerCluster := by
    unfold directoryLba at h
    split_ifs at h with h1
    exact h1
  rw [directoryLba_eq hg hi.1 hi.2, Option.some.injEq] at h
  have hb := dataLba_bounds hg hi.1 hi.2
  exact ⟨by omega, by omega⟩

omit hg in
theorem validSlot_inRegion {slot : DirectorySlot} (h : validSlot g slot = true) :
    InRegion g (.data, slot.lba) := by
  simp only [validSlot, Bool.and_eq_true, decide_eq_true_eq] at h
  exact ⟨h.1.1.1, h.1.1.2⟩

omit hg in
theorem contained_readSector (lba : Nat) : Keeps (Contained g disk) (readSector lba) :=
  keeps_of_wp fun dev hdev => wp_mono (readSector_wp dev lba)
    (fun _ _ h => ⟨h.2.2.1 ▸ hdev.written, h.2.1 ▸ hdev.outside⟩)
    (fun _ _ h => ⟨h.2.2.1 ▸ hdev.written, h.2.1 ▸ hdev.outside⟩)

theorem contained_writeSector {region : Region} {lba : Nat} (s : Sector)
    (hr : InRegion g (region, lba)) : Keeps (Contained g disk) (writeSector region lba s) := by
  have hout : ∀ l, l < g.fatBeginLba ∨ g.totalSectors ≤ l → l ≠ lba := by
    have h1 := hg.firstDataEq
    have h2 := hg.firstDataLt
    intro l hl heq
    cases region <;> obtain ⟨ha, hb⟩ := hr <;> omega
  refine keeps_of_wp fun dev hdev => wp_mono (writeSector_wp dev region lba s) ?_ ?_
  · rintro _ dev' ⟨hs, hw, -⟩
    refine ⟨?_, fun l hl => ?_⟩
    · rw [hw]
      exact List.forall_mem_cons.mpr ⟨hr, hdev.written⟩
    · rw [hs, Function.update_of_ne (hout l hl)]
      exact hdev.outside l hl
  · rintro _ dev' ⟨-, hs, hw, -⟩
    refine ⟨?_, fun l hl => ?_⟩
    · rcases hw with hw | hw
      · rw [hw]
        exact hdev.written
      · rw [hw]
        exact List.forall_mem_cons.mpr ⟨hr, hdev.written⟩
    · rcases hs with hs | hs
      · rw [hs]
        exact hdev.outside l hl
      · rw [hs, Function.update_of_ne (hout l hl)]
        exact hdev.outside l hl

end Addresses

/-- An invariant of the device that reading keeps. -/
class ReadStable (I : Device → Prop) : Prop where
  read : ∀ lba, Keeps I (readSector lba)

/-- An invariant that writing inside the area of an update keeps too. -/
class WriteStable (g : BpbGeometry) (I : Device → Prop) : Prop extends ReadStable I where
  sound : ∃ n, g.Sound n
  write : ∀ {region : Region} {lba : Nat} (s : Sector), InRegion g (region, lba) →
    Keeps I (writeSector region lba s)

section Reads
variable {g : BpbGeometry} {I : Device → Prop} [ReadStable I]

theorem keeps_reads {α : Type} {limit : Nat} {m : Io α} (h : Reads limit m) : Keeps I m :=
  h.keeps ReadStable.read

omit [ReadStable I] in
theorem keeps_geometryForWrite {α : Type} {f : BpbGeometry → Io α} (hf : Keeps I (f g)) :
    Keeps I (geometryForWrite (some g) >>= f) := by
  rw [geometryForWrite_bind]
  exact keeps_ite (fun _ => hf) fun _ => keeps_throw _

omit [ReadStable I] in
theorem keeps_attemptGeometry {α : Type} {f : Except Status BpbGeometry → Io α}
    (he : ∀ e, Keeps I (f (.error e))) (hf : Keeps I (f (.ok g))) :
    Keeps I ((geometryForWrite (some g)).attempt >>= f) := by
  cases hm : g.mirroringEnabled <;> simp only [geometryForWrite, hm]
  · exact he _
  · exact hf

theorem keeps_tailUnlinked (tail : Nat) : ∀ n, Keeps I (tailUnlinked g tail n)
  | 0 => keeps_pure _
  | n + 1 => by
    unfold tailUnlinked
    refine keeps_bind (keeps_attempt (keeps_reads (reads_readEntry _ _))) ?_
    rintro (_ | raw)
    · exact keeps_pure _
    · exact keeps_ite (fun _ => keeps_pure _) fun _ => keeps_tailUnlinked tail n

end Reads

section Writes
variable {g : BpbGeometry} {I : Device → Prop} [WriteStable g I]

theorem keeps_writeRaw (c k raw : Nat) : Keeps I (writeRaw g c k raw) := by
  unfold writeRaw
  split
  · exact keeps_throw _
  · rename_i lba inside hloc
    exact keeps_bind (ReadStable.read _) fun _ =>
      WriteStable.write _ (entryLocation_inRegion (WriteStable.sound I).choose_spec hloc)

theorem keeps_putDirectoryEntryStatus (slot : DirectorySlot) (e : Entry) :
    Keeps I (putDirectoryEntryStatus g slot e) :=
  keeps_ite (fun _ => keeps_throw _) fun hslot =>
    keeps_bind (ReadStable.read _) fun _ =>
      WriteStable.write _ (validSlot_inRegion (by simpa using hslot))

theorem keeps_putDirectoryEntry (slot : DirectorySlot) (e : Entry) :
    Keeps I (putDirectoryEntry g slot e) := by
  refine keeps_ite (fun _ => keeps_throw _) fun hslot =>
    keeps_bind (keeps_attempt (ReadStable.read _)) ?_
  rintro (_ | sector)
  · exact keeps_pure _
  · refine keeps_bind (keeps_attempt (WriteStable.write _
      (validSlot_inRegion (by simpa using hslot)))) ?_
    rintro (_ | ⟨⟩)
    · refine keeps_bind (keeps_attempt (ReadStable.read _)) ?_
      rintro (_ | _) <;> exact keeps_pure _
    · exact keeps_pure _

theorem keeps_clearEndMarker (slot : DirectorySlot) :
    Keeps I (clearEndMarker g slot) := by
  refine keeps_ite (fun _ => keeps_throw _) fun hslot => keeps_bind (ReadStable.read _) fun _ => ?_
  exact keeps_ite (fun _ => keeps_pure _) fun _ =>
    WriteStable.write _ (validSlot_inRegion (by simpa using hslot))

theorem keeps_restoreCopies (c : Nat) : ∀ copy old, Keeps I (restoreCopies g c copy old)
  | _, [] => keeps_pure _
  | copy, _ :: old =>
    keeps_bind (keeps_attempt (keeps_writeRaw _ _ _)) fun _ => keeps_restoreCopies c (copy + 1) old

theorem keeps_writeCopies (c v : Nat) : ∀ done old, Keeps I (writeCopies g c v done old)
  | _, [] => keeps_pure _
  | done, raw :: old => by
    unfold writeCopies
    refine keeps_bind (keeps_attempt (keeps_writeRaw _ _ _)) ?_
    rintro (_ | ⟨⟩)
    · exact keeps_bind (keeps_restoreCopies _ _ _) fun _ => keeps_throw _
    · exact keeps_writeCopies c v _ old

theorem keeps_writeFatEntry (c v : Nat) : Keeps I (writeFatEntry (some g) c v) :=
  keeps_geometryForWrite <| keeps_ite (fun _ => keeps_throw _) fun _ =>
    keeps_bind (keeps_reads (reads_readCopies _ _ _)) fun _ => keeps_writeCopies _ _ _ _

theorem keeps_freeLinks : ∀ n c, Keeps I (freeLinks (some g) g n c)
  | 0, _ => keeps_throw _
  | n + 1, c => by
    unfold freeLinks
    refine keeps_bind (keeps_reads (reads_chainNext _ _)) fun next => keeps_bind (keeps_writeFatEntry _ _) fun _ => ?_
    cases next with
    | none => exact keeps_pure _
    | some next => exact keeps_freeLinks n next

theorem keeps_freeChain (first : Nat) : Keeps I (freeChain (some g) first) :=
  keeps_geometryForWrite <| keeps_ite (fun _ => keeps_pure _) fun _ =>
    keeps_ite (fun _ => keeps_throw _) fun _ =>
      keeps_bind (keeps_reads (reads_validateChain _ _)) fun _ => keeps_freeLinks _ _

theorem keeps_discardChain (first : Nat) : Keeps I (discardChain (some g) first) :=
  keeps_ite (fun _ => keeps_attempt (keeps_freeChain _)) fun _ => keeps_pure _

theorem keeps_allocateLoop : ∀ n need first previous,
    Keeps I (allocateLoop (some g) g n need first previous)
  | 0, _, _, _ => keeps_ite (fun _ => keeps_pure _) fun _ =>
    keeps_bind (keeps_discardChain _) fun _ => keeps_throw _
  | n + 1, need, first, previous => by
    unfold allocateLoop
    refine keeps_ite (fun _ => keeps_pure _) fun _ => ?_
    refine keeps_bind (keeps_attempt (keeps_reads (reads_readFatEntry _))) ?_
    rintro (_ | value)
    · exact keeps_bind (keeps_discardChain _) fun _ => keeps_throw _
    refine keeps_ite (fun _ => keeps_allocateLoop n _ _ _) fun _ => ?_
    refine keeps_bind (keeps_attempt (keeps_writeFatEntry _ _)) ?_
    rintro (_ | ⟨⟩)
    · exact keeps_bind (keeps_discardChain _) fun _ => keeps_throw _
    refine keeps_ite (fun _ => ?_) fun _ => keeps_allocateLoop n _ _ _
    refine keeps_bind (keeps_attempt (keeps_writeFatEntry _ _)) ?_
    rintro (_ | ⟨⟩)
    · exact keeps_bind (keeps_attempt (keeps_writeFatEntry _ _)) fun _ =>
        keeps_bind (keeps_attempt (keeps_freeChain _)) fun _ => keeps_throw _
    · exact keeps_allocateLoop n _ _ _

theorem keeps_allocateChain (clusters : Nat) : Keeps I (allocateChain (some g) clusters) :=
  keeps_geometryForWrite <| keeps_ite (fun _ => keeps_pure _) fun _ =>
    keeps_ite (fun _ => keeps_throw _) fun _ => keeps_allocateLoop _ _ _ _

theorem keeps_freeChainQuietly (first : Nat) : Keeps I (freeChainQuietly (some g) first) :=
  keeps_bind (keeps_attempt (keeps_freeChain _)) fun _ => keeps_pure _

theorem keeps_reclaimIfUnlinked (tail fresh : Nat) :
    Keeps I (reclaimIfUnlinked (some g) g tail fresh) := by
  refine keeps_bind (keeps_tailUnlinked _ _) ?_
  rintro (_ | _)
  · exact keeps_pure _
  · exact keeps_freeChainQuietly _

theorem keeps_fillCluster (c : Nat) (sector : Sector) : ∀ n, Keeps I (fillCluster g c sector n)
  | 0 => keeps_pure _
  | n + 1 => by
    unfold fillCluster
    split
    · exact keeps_throw _
    · rename_i lba hlba
      exact keeps_bind (WriteStable.write _ (directoryLba_inRegion
        (WriteStable.sound I).choose_spec hlba)) fun _ => keeps_fillCluster c sector n

theorem keeps_growDirectory (tail : Nat) : Keeps I (growDirectory (some g) g tail) := by
  refine keeps_bind (keeps_allocateChain _) fun fresh =>
    keeps_bind (keeps_attempt (keeps_fillCluster _ _ _)) ?_
  rintro (_ | ⟨⟩)
  · exact keeps_bind (keeps_freeChainQuietly _) fun _ => keeps_throw _
  refine keeps_bind (keeps_attempt (keeps_writeFatEntry _ _)) ?_
  rintro (_ | ⟨⟩)
  · exact keeps_bind (keeps_freeChainQuietly _) fun _ => keeps_throw _
  refine keeps_bind (keeps_attempt (keeps_writeFatEntry _ _)) ?_
  rintro (_ | ⟨⟩)
  · exact keeps_bind (keeps_reclaimIfUnlinked _ _) fun _ => keeps_throw _
  · exact keeps_pure _

theorem keeps_unlinkGrown (tail fresh : Nat) : Keeps I (unlinkGrown (some g) tail fresh) := by
  refine keeps_bind (keeps_attempt (keeps_writeFatEntry _ _)) ?_
  rintro (_ | ⟨⟩)
  · exact keeps_pure _
  · exact keeps_freeChainQuietly _

theorem keeps_publishEntry (vacant : DirectorySlot) (e : Entry) (tail fresh : Nat) :
    Keeps I (publishEntry (some g) g vacant e tail fresh) := by
  refine keeps_bind (keeps_attempt (keeps_putDirectoryEntry _ _)) ?_
  rintro (_ | ((_ | _) | ⟨⟩))
  · exact keeps_pure _
  · exact keeps_pure _
  · exact keeps_ite (fun _ => keeps_pure _) fun _ =>
      keeps_bind (keeps_unlinkGrown _ _) fun _ => keeps_pure _
  · exact keeps_pure _

theorem keeps_createAbsent (published : Entry) (free : FreeSearch) (tail : Nat) :
    Keeps I (createAbsent (some g) g published free tail) := by
  refine keeps_bind (keeps_attempt (keeps_reads (reads_markerFor _ _))) ?_
  rintro (_ | marker)
  · exact keeps_pure _
  refine keeps_ite (fun _ => ?_) fun _ => ?_
  · refine keeps_bind (keeps_attempt (keeps_growDirectory _)) ?_
    rintro (_ | fresh)
    · exact keeps_pure _
    · dsimp only
      split
      · exact keeps_pure _
      · exact keeps_publishEntry _ _ _ _
  · refine keeps_bind (keeps_attempt ?_) ?_
    · cases marker with
      | none => exact keeps_pure _
      | some slot => exact keeps_clearEndMarker _
    · rintro (_ | ⟨⟩)
      · exact keeps_pure _
      · exact keeps_publishEntry _ _ _ _

theorem keeps_createDirectoryEntry (c : Nat) (name : CString) (e : Entry) :
    Keeps I (createDirectoryEntry (some g) c name e) := by
  unfold createDirectoryEntry
  split
  · exact keeps_pure _
  refine keeps_attemptGeometry (fun _ => keeps_pure _) ?_
  refine keeps_bind (keeps_attempt (keeps_reads (reads_findInDirectory _ _))) ?_
  rintro (_ | (_ | ⟨free, tail⟩))
  · exact keeps_pure _
  · exact keeps_pure _
  · exact keeps_createAbsent _ _ _

theorem keeps_updateDirectoryEntry (slot : DirectorySlot) (name : ShortName) (first size : Nat) :
    Keeps I (updateDirectoryEntry (some g) slot name first size) :=
  keeps_geometryForWrite <| keeps_ite (fun _ => keeps_throw _) fun _ =>
    keeps_bind (keeps_reads (reads_readDirectoryEntry _)) fun _ => keeps_ite (fun _ => keeps_throw _) fun _ =>
      keeps_putDirectoryEntryStatus _ _

theorem keeps_deleteDirectoryEntry (slot : DirectorySlot) :
    Keeps I (deleteDirectoryEntry (some g) slot) :=
  keeps_bind (keeps_reads (reads_readDirectoryEntry _)) fun _ => keeps_ite (fun _ => keeps_throw _) fun _ =>
    keeps_geometryForWrite (keeps_putDirectoryEntryStatus _ _)

theorem keeps_publishChain (path : Option CString) (parent : Nat) (name : ShortName) (e : Entry)
    (fresh : Nat) : Keeps I (publishChain (some g) path parent name e fresh) := by
  refine keeps_bind (keeps_createDirectoryEntry _ _ _) ?_
  rintro (⟨status, unpublished⟩ | slot)
  · refine keeps_ite (fun _ => keeps_throw _) fun _ =>
      keeps_bind (keeps_attempt (keeps_reads (reads_resolvePath _))) ?_
    rintro (_ | observed)
    · exact keeps_throw _
    · exact keeps_ite (fun _ => keeps_throw _) fun _ =>
        keeps_bind (keeps_attempt (keeps_freeChain _)) fun _ => keeps_throw _
  · exact keeps_pure _

theorem keeps_prepareDirectory (fresh parent : Nat) :
    Keeps I (prepareDirectory g fresh parent) := by
  refine keeps_bind (keeps_fillCluster _ _ _) fun _ => ?_
  split
  · exact keeps_throw _
  · rename_i lba hlba
    exact WriteStable.write _ (directoryLba_inRegion (WriteStable.sound I).choose_spec hlba)

theorem keeps_releaseChain (first : Nat) : Keeps I (releaseChain (some g) first) := by
  refine keeps_ite (fun _ => keeps_pure _) fun _ => keeps_bind (keeps_attempt (keeps_freeChain _)) ?_
  rintro (_ | ⟨⟩)
  · exact keeps_throw _
  · exact keeps_pure _

theorem keeps_replaceEntry (resolved : ResolvedPath) (fresh size : Nat) :
    Keeps I (replaceEntry (some g) resolved fresh size) := by
  refine keeps_bind (keeps_attempt (keeps_updateDirectoryEntry _ _ _ _)) ?_
  rintro (_ | ⟨⟩)
  · refine keeps_bind (keeps_attempt (keeps_reads (reads_readDirectoryEntry _))) ?_
    rintro (_ | observed)
    · exact keeps_throw _
    · exact keeps_ite (fun _ => keeps_throw _) fun _ =>
        keeps_bind (keeps_attempt (keeps_freeChain _)) fun _ => keeps_throw _
  · exact keeps_pure _

theorem keeps_writeSectors (data : Bytes) (c : Nat) : ∀ n i consumed remaining,
    Keeps I (writeSectors g data c n i consumed remaining)
  | 0, _, _, _ => keeps_pure _
  | n + 1, i, consumed, remaining => by
    unfold writeSectors
    refine keeps_ite (fun _ => keeps_pure _) fun _ => ?_
    split
    · exact keeps_throw _
    · rename_i lba hlba
      exact keeps_bind (WriteStable.write _ (directoryLba_inRegion
        (WriteStable.sound I).choose_spec hlba)) fun _ => keeps_writeSectors data c n _ _ _

theorem keeps_writeClusters (data : Bytes) : ∀ n c consumed remaining,
    Keeps I (writeClusters g data n c consumed remaining)
  | 0, _, _, _ => keeps_ite (fun _ => keeps_throw _) fun _ => keeps_pure _
  | n + 1, c, consumed, remaining => by
    unfold writeClusters
    refine keeps_bind (keeps_writeSectors _ _ _ _ _ _) fun _ => ?_
    refine keeps_ite (fun _ => keeps_writeClusters data n _ _ _) fun _ =>
      keeps_bind (keeps_reads (reads_chainNext _ _)) fun next => ?_
    cases next with
    | none => exact keeps_throw _
    | some next => exact keeps_writeClusters data n _ _ _

theorem keeps_copySectors (source target : Nat) : ∀ n i remaining,
    Keeps I (copySectors g source target n i remaining)
  | 0, _, _ => keeps_pure _
  | n + 1, i, remaining => by
    unfold copySectors
    refine keeps_ite (fun _ => keeps_pure _) fun _ => ?_
    split
    · rename_i sourceLba targetLba hsource htarget
      exact keeps_bind (ReadStable.read _) fun _ => keeps_bind (WriteStable.write _
        (directoryLba_inRegion (WriteStable.sound I).choose_spec htarget)) fun _ =>
          keeps_copySectors source target n _ _
    · exact keeps_throw _

theorem keeps_copyClusters : ∀ n source target remaining,
    Keeps I (copyClusters g n source target remaining)
  | 0, _, _, _ => keeps_ite (fun _ => keeps_throw _) fun _ => keeps_pure _
  | n + 1, source, target, remaining => by
    unfold copyClusters
    exact keeps_bind (keeps_copySectors _ _ _ _ _) fun _ => keeps_bind (keeps_reads (reads_chainNext _ _)) fun _ =>
      keeps_bind (keeps_reads (reads_chainNext _ _)) fun _ => keeps_ite (fun _ => keeps_throw _) fun _ =>
        keeps_copyClusters n _ _ _

theorem keeps_touch (path : Option CString) : Keeps I (touch (some g) path) := by
  refine keeps_bind (keeps_reads (reads_resolvePath _)) fun resolved => keeps_ite (fun _ => ?_) fun _ => ?_
  · exact keeps_ite (fun _ => keeps_throw _) fun _ => keeps_pure _
  · refine keeps_bind (keeps_createDirectoryEntry _ _ _) ?_
    rintro (⟨status, _⟩ | slot)
    · exact keeps_throw _
    · exact keeps_pure _

theorem keeps_mkdir (path : Option CString) : Keeps I (mkdir (some g) path) := by
  refine keeps_bind (keeps_reads (reads_resolvePath _)) fun resolved => keeps_ite (fun _ => keeps_throw _) fun _ =>
    keeps_geometryForWrite <| keeps_bind (keeps_allocateChain _) fun fresh =>
      keeps_bind (keeps_attempt (keeps_prepareDirectory _ _)) ?_
  rintro (_ | ⟨⟩)
  · exact keeps_bind (keeps_attempt (keeps_freeChain _)) fun _ => keeps_throw _
  · exact keeps_publishChain _ _ _ _ _

theorem keeps_remove (path : Option CString) : Keeps I (remove (some g) path) := by
  refine keeps_bind (keeps_reads (reads_resolvePath _)) fun resolved => keeps_ite (fun _ => keeps_throw _) fun _ =>
    keeps_geometryForWrite <| keeps_bind ?_ fun _ => keeps_bind (keeps_deleteDirectoryEntry _) fun _ =>
      keeps_releaseChain _
  exact keeps_reads (reads_checkRemovable _ _)

theorem keeps_writeFile (path : Option CString) (data : Option Bytes) (size : Nat) :
    Keeps I (writeFile (some g) path data size) := by
  refine keeps_ite (fun _ => keeps_throw _) fun _ => keeps_ite (fun _ => keeps_throw _) fun _ => ?_
  refine keeps_bind (keeps_reads (reads_resolvePath _)) fun resolved => keeps_ite (fun _ => keeps_throw _) fun _ =>
    keeps_geometryForWrite ?_
  split
  · exact keeps_throw _
  refine keeps_bind (keeps_reads (reads_fileClusterCount _ _ 0)) fun clusters =>
    keeps_bind (keeps_reads (reads_validateOld _)) fun _ =>
      keeps_bind (keeps_allocateChain _) fun fresh =>
        keeps_bind (keeps_attempt (keeps_writeClusters _ _ _ _ _)) ?_
  rintro (_ | ⟨⟩)
  · exact keeps_bind (keeps_discardChain _) fun _ => keeps_throw _
  · refine keeps_bind ?_ fun _ => keeps_releaseChain _
    exact keeps_ite (fun _ => keeps_replaceEntry _ _ _) fun _ => keeps_publishChain _ _ _ _ _

theorem keeps_copyFile (source destination : Option CString) :
    Keeps I (copyFile (some g) source destination) := by
  refine keeps_bind (keeps_reads (reads_resolvePath _)) fun source => keeps_ite (fun _ => keeps_throw _) fun _ =>
    keeps_ite (fun _ => keeps_throw _) fun _ => keeps_bind (keeps_reads (reads_resolvePath _)) fun target =>
      keeps_ite (fun _ => keeps_throw _) fun _ => keeps_geometryForWrite ?_
  split
  · exact keeps_throw _
  refine keeps_bind (keeps_reads (reads_fileClusterCount _ _ 0)) fun clusters => keeps_ite (fun _ => keeps_throw _)
    fun _ => keeps_bind (keeps_reads (reads_validateFileChain _ _)) fun _ =>
      keeps_bind (keeps_allocateChain _) fun fresh =>
        keeps_bind (keeps_attempt (keeps_copyClusters _ _ _ _)) ?_
  rintro (_ | ⟨⟩)
  · exact keeps_bind (keeps_discardChain _) fun _ => keeps_throw _
  · exact keeps_publishChain _ _ _ _ _

theorem keeps_deleteSource (source : ResolvedPath) (published : DirectorySlot) :
    Keeps I (deleteSource (some g) g source published) := by
  refine keeps_bind (keeps_attempt (keeps_putDirectoryEntry _ _)) ?_
  rintro (_ | ((_ | _) | ⟨⟩))
  · exact keeps_throw _
  · exact keeps_throw _
  · exact keeps_bind (keeps_attempt (keeps_deleteDirectoryEntry _)) fun _ => keeps_throw _
  · exact keeps_pure _

theorem keeps_move (source destination : Option CString) :
    Keeps I (move (some g) source destination) := by
  refine keeps_bind (keeps_reads (reads_resolvePath _)) fun source => keeps_ite (fun _ => keeps_throw _) fun _ =>
    keeps_bind (keeps_reads (reads_resolvePath _)) fun target => keeps_ite (fun _ => keeps_throw _) fun _ =>
      keeps_geometryForWrite <| keeps_ite (fun _ => keeps_throw _) fun _ =>
        keeps_bind (keeps_reads (reads_checkMovable _ _)) fun _ =>
          keeps_ite (fun _ => keeps_putDirectoryEntryStatus _ _) fun _ =>
            keeps_bind (keeps_createDirectoryEntry _ _ _) ?_
  rintro (⟨status, _⟩ | published)
  · exact keeps_throw _
  · exact keeps_deleteSource _ _

theorem keeps_call (op : Op) : Keeps I (op.call (some g)) := by
  cases op with
  | touch path => exact keeps_touch path
  | writeFile path data size => exact keeps_writeFile path data size
  | mkdir path => exact keeps_mkdir path
  | remove path => exact keeps_remove path
  | copyFile source destination => exact keeps_copyFile source destination
  | move source destination => exact keeps_move source destination

theorem runOps_keeps (ops : List Op) {dev : Device} (h : I dev) : I (runOps (some g) ops dev) := by
  induction ops generalizing dev with
  | nil => exact h
  | cons op ops ih => exact ih (keeps_call op dev h)

end Writes

theorem contained_writeStable {g : BpbGeometry} {n : Nat} (hg : g.Sound n) (disk : Nat → Sector) :
    WriteStable g (Contained g disk) where
  read := contained_readSector
  sound := ⟨n, hg⟩
  write := contained_writeSector hg

/-- The address arithmetic of the writer and the reader on valid clusters. The computations are
modulo `2^32`, so each equation with the unreduced value says that nothing wraps. -/
structure AddressesSound (g : BpbGeometry) : Prop where
  fatSteps : ∀ c k, validCluster g c = true → k < g.fatCount →
    checkedMulU32 k g.sectorsPerFat = some (k * g.sectorsPerFat) ∧
    checkedAddU32 g.fatBeginLba (k * g.sectorsPerFat) = some (g.fatBeginLba + k * g.sectorsPerFat) ∧
    checkedAddU32 (g.fatBeginLba + k * g.sectorsPerFat) (c / 128) = some (g.fatLba k c) ∧
    entryLocation g c k = some (g.fatLba k c, c % 128 * 4)
  dataSteps : ∀ c i, validCluster g c = true → i < g.sectorsPerCluster →
    subU32 c 2 = c - 2 ∧
    checkedMulU32 (c - 2) g.sectorsPerCluster = some ((c - 2) * g.sectorsPerCluster) ∧
    clusterToLba g.firstDataLba g.sectorsPerCluster c =
      some (g.firstDataLba + (c - 2) * g.sectorsPerCluster) ∧
    checkedAddU32 (g.firstDataLba + (c - 2) * g.sectorsPerCluster) i = some (g.dataLba c i) ∧
    directoryLba g c i = some (g.dataLba c i)
  readerSteps : ∀ c, validCluster g c = true →
    checkedMulU32 c 4 = some (c * 4) ∧
    checkedAddU32 g.fatBeginLba (c * 4 / 512) = some (g.fatBeginLba + c * 4 / 512) ∧
    fatEntryLocation c g.fatBeginLba = some (g.fatBeginLba + c / 128, c % 128 * 4)
  fatRange : ∀ c k, validCluster g c = true → k < g.fatCount →
    g.fatBeginLba + k * g.sectorsPerFat ≤ g.fatLba k c ∧
    g.fatLba k c < g.fatBeginLba + k * g.sectorsPerFat + g.sectorsPerFat ∧
    g.fatLba k c < g.firstDataLba
  fatInjective : ∀ c k c' k', validCluster g c = true → k < g.fatCount →
    validCluster g c' = true → k' < g.fatCount →
    entryLocation g c k = entryLocation g c' k' → c = c' ∧ k = k'
  dataRange : ∀ c i, validCluster g c = true → i < g.sectorsPerCluster →
    g.firstDataLba ≤ g.dataLba c i ∧ g.dataLba c i < g.totalSectors
  dataDisjoint : ∀ c i c' i', validCluster g c = true → i < g.sectorsPerCluster →
    validCluster g c' = true → i' < g.sectorsPerCluster → c ≠ c' → g.dataLba c i ≠ g.dataLba c' i'
  /-- The sector and offset `next_cluster` reads are those of the writer for the active copy. -/
  readerAgrees : ∀ c, validCluster g c = true →
    ((fatEntryLocation c g.fatBeginLba).bind fun (sector, inside) =>
      ((checkedMulU32 g.activeFat g.sectorsPerFat).bind (checkedAddU32 sector)).map (·, inside)) =
    entryLocation g c g.activeFat

theorem addressesSound {g : BpbGeometry} {n : Nat} (hg : g.Sound n) : AddressesSound g := by
  have htot := hg.totalLt
  have hlt := hg.firstDataLt
  have hcnt := hg.countLt
  refine ⟨fun c k hc hk => ?_, fun c i hc hi => ?_, fun c hc => ?_, fun c k => fatLba_bounds hg, ?_,
    fun c i hc hi => ⟨(dataLba_bounds hg hc hi).1, (dataLba_bounds hg hc hi).2.1⟩, ?_, fun c hc => ?_⟩
  · obtain ⟨hlo, hhi, hdata⟩ := fatLba_bounds hg hc hk
    refine ⟨checkedMulU32_eq (by omega), checkedAddU32_eq (by omega), checkedAddU32_eq ?_,
      entryLocation_eq hg hc hk⟩
    unfold BpbGeometry.fatLba at *
    omega
  · obtain ⟨hlo, hhi, hrow⟩ := dataLba_bounds hg hc hi
    have hv := validCluster_iff.mp hc
    refine ⟨subU32_eq hv.1 (by omega), checkedMulU32_eq (by omega), clusterToLba_eq hg hc,
      checkedAddU32_eq ?_, directoryLba_eq hg hc hi⟩
    unfold BpbGeometry.dataLba at *
    omega
  · have hv := validCluster_iff.mp hc
    have hb := fatLba_bounds hg hc hg.fatCountPos
    refine ⟨checkedMulU32_eq (by omega), checkedAddU32_eq ?_, fatEntryLocation_eq hg hc⟩
    unfold BpbGeometry.fatLba at hb
    omega
  · intro c k c' k' hc hk hc' hk' heq
    rw [entryLocation_eq hg hc hk, entryLocation_eq hg hc' hk', Option.some.injEq,
      Prod.mk.injEq] at heq
    obtain ⟨hkk, hdiv⟩ := fatLba_inj hg hc hc' hk hk' heq.1
    exact ⟨by omega, hkk⟩
  · intro c i c' i' hc hi hc' hi' hne heq
    exact hne (dataLba_inj hc hc' hi hi' heq).1
  · rw [fatEntryLocation_eq hg hc, Option.bind_some, entryLocation_eq hg hc hg.activeLt]
    dsimp only
    rw [activeLocation_eq hg hc]
    rfl

/-- **Write confinement.** On every volume `parse_bpb` accepts the address arithmetic is exact,
and no run of operations, whatever the disk holds and whichever requests fail, writes outside
the area of the update it makes. -/
theorem write_confinement (sector : Sector) (diskSectors : Nat) (g : BpbGeometry)
    (h : parseBpb sector diskSectors = some g) :
    AddressesSound g ∧
    ∀ (ops : List Op) (dev : Device), dev.written = [] →
      (∀ w ∈ (runOps (some g) ops dev).written, InRegion g w) ∧
      ∀ lba, lba < g.fatBeginLba ∨ g.totalSectors ≤ lba →
        (runOps (some g) ops dev).sectors lba = dev.sectors lba := by
  have hg := parseBpb_sound h
  refine ⟨addressesSound hg, fun ops dev hdev => ?_⟩
  have := contained_writeStable hg dev.sectors
  have hdev' : Contained g dev.sectors dev := ⟨by simp [hdev], fun _ _ => rfl⟩
  have hrun : Contained g dev.sectors (runOps (some g) ops dev) := runOps_keeps ops hdev'
  exact ⟨hrun.written, hrun.outside⟩

def emptyDisk (lba : Nat) : Sector :=
  if lba = 0 then smallBoot
  else if lba = 32 ∨ lba = 544 then fun j =>
    [0xF8, 0xFF, 0xFF, 0x0F, 0xFF, 0xFF, 0xFF, 0x0F, 0xFF, 0xFF, 0xFF, 0x0F].getD j.val 0
  else Sector.zero

/-- The drive with that volume. It carries out its request 16 and reports it as failed. -/
def emptyDevice : Device := ⟨emptyDisk, 66586, true, fun n => if n = 16 then .applied else .none, []⟩

def smallOps : List Op := [.touch (some [0x2F, 0x41]), .mkdir (some [0x2F, 0x44])]

/-- A new file, and a new directory that fails at the second copy of the FAT and takes the first one back. -/
theorem write_confinement_smallBoot :
    parseBpb smallBoot 66586 = some smallGeometry ∧ AddressesSound smallGeometry ∧
    (runOps (some smallGeometry) smallOps emptyDevice).written =
      [(.fat, 32), (.fat, 544), (.fat, 32), (.data, 1056)] ∧
    (∀ w ∈ (runOps (some smallGeometry) smallOps emptyDevice).written, InRegion smallGeometry w) ∧
    (runOps (some smallGeometry) smallOps emptyDevice).sectors 0 = smallBoot := by
  obtain ⟨haddresses, hruns⟩ := write_confinement smallBoot 66586 smallGeometry parseBpb_smallBoot
  obtain ⟨hwritten, houtside⟩ := hruns smallOps emptyDevice rfl
  exact ⟨parseBpb_smallBoot, haddresses, by decide +kernel, hwritten, houtside 0 (Or.inl (by decide))⟩

end Linux95.Fat32.Write
