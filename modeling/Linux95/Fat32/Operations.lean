import Linux95.Fat32.Writer

/-! The six public operations of `filesystem/fat32_write.cpp` and runs of them. -/

namespace Linux95.Fat32.Write
open Base Storage

/-- `status == Ok` is the empty answer; any other status is thrown. -/
def throwCreated : Created → Io Unit
  | .ok _ => pure ()
  | .error (status, _) => throw status

def touch (vol : Option BpbGeometry) (path : Option CString) : Io Unit := do
  let resolved ← resolvePath vol path
  if resolved.existing then
    if isDirectoryEntry resolved.entry then throw .isDirectory else pure ()
  else
    let created ← createDirectoryEntry vol resolved.parentCluster (shortComponent resolved.name)
      (Entry.zero.setByte 11 0x20)
    throwCreated created

/-- Publish an entry for the chain `fresh`; a failed publication that is known not to have
reached the disk gives the chain back. -/
def publishChain (vol : Option BpbGeometry) (path : Option CString) (parent : Nat)
    (name : ShortName) (entry : Entry) (fresh : Nat) : Io Unit := do
  match ← createDirectoryEntry vol parent (shortComponent name) entry with
  | .ok _ => pure ()
  | .error (status, definitelyUnpublished) =>
    if !definitelyUnpublished then throw status
    else
      match ← (resolvePath vol path).attempt with
      | .error _ => throw status
      | .ok observed =>
        if observed.existing ∨ fresh = 0 then throw status
        else
          let cleanup ← (freeChain vol fresh).attempt
          throw (statusAfter cleanup status)

def dotEntry (dots cluster : Nat) : Entry :=
  setFirstCluster (fun j =>
    if j.val < dots then 0x2E else if j.val < 11 then 0x20 else if j.val = 11 then 0x10 else 0) cluster

def dotSector (fresh parent : Nat) : Sector :=
  Sector.setSlot (Sector.setSlot Sector.zero 0 (dotEntry 1 fresh)) 32 (dotEntry 2 parent)

def prepareDirectory (g : BpbGeometry) (fresh parent : Nat) : Io Unit := do
  fillCluster g fresh Sector.zero g.sectorsPerCluster
  match directoryLba g fresh 0 with
  | none => throw .corrupt
  | some lba =>
    writeSector .data lba (dotSector fresh (if parent = g.rootCluster then 0 else parent))

def mkdir (vol : Option BpbGeometry) (path : Option CString) : Io Unit := do
  let resolved ← resolvePath vol path
  if resolved.existing then throw .alreadyExists
  else
    let g ← geometryForWrite vol
    let fresh ← allocateChain vol 1
    match ← (prepareDirectory g fresh resolved.parentCluster).attempt with
    | .error status => do
      let cleanup ← (freeChain vol fresh).attempt
      throw (statusAfter cleanup status)
    | .ok () =>
      publishChain vol path resolved.parentCluster resolved.name
        (setFirstCluster (Entry.zero.setByte 11 0x10) fresh) fresh

def releaseChain (vol : Option BpbGeometry) (first : Nat) : Io Unit :=
  if first = 0 then pure ()
  else do
    match ← (freeChain vol first).attempt with
    | .ok () => pure ()
    | .error _ => throw .ioError

def checkRemovable (g : BpbGeometry) (entry : Entry) (first : Nat) : Io Unit :=
  if isDirectoryEntry entry then directoryIsEmpty g first else validateFileChain g entry first

def remove (vol : Option BpbGeometry) (path : Option CString) : Io Unit := do
  let resolved ← resolvePath vol path
  if !resolved.existing then throw .notFound
  else
    let g ← geometryForWrite vol
    let first := firstCluster resolved.entry
    checkRemovable g resolved.entry first
    deleteDirectoryEntry vol resolved.slot
    releaseChain vol first

def dataSector (data : Bytes) (consumed take : Nat) : Sector :=
  fun j => if j.val < take then data (consumed + j.val) else 0

def writeSectors (g : BpbGeometry) (data : Bytes) (cluster : Nat) :
    Nat → Nat → Nat → Nat → Io (Nat × Nat)
  | 0, _, consumed, remaining => pure (consumed, remaining)
  | n + 1, sectorIndex, consumed, remaining =>
    if remaining = 0 then pure (consumed, remaining)
    else
      match directoryLba g cluster sectorIndex with
      | none => throw .corrupt
      | some lba => do
        let take := if remaining < 512 then remaining else 512
        writeSector .data lba (dataSector data consumed take)
        writeSectors g data cluster n (sectorIndex + 1) (consumed + take) (remaining - take)

/-- The data loop of `write_file` over the last `n` clusters of the new chain. -/
def writeClusters (g : BpbGeometry) (data : Bytes) : Nat → Nat → Nat → Nat → Io Unit
  | 0, _, _, remaining => if remaining ≠ 0 then throw .corrupt else pure ()
  | n + 1, cluster, consumed, remaining => do
    let (consumed, remaining) ← writeSectors g data cluster g.sectorsPerCluster 0 consumed remaining
    if n = 0 then writeClusters g data n cluster consumed remaining
    else
      match ← chainNext g cluster false with
      | none => throw .corrupt
      | some next => writeClusters g data n next consumed remaining

def fileEntry (name : ShortName) (first size : Nat) : Entry :=
  setSize (setFirstCluster (setName (Entry.zero.setByte 11 0x20) name) first) size

/-- The exchange of the chain of an existing file. When it fails and the old entry is read
back unchanged, the new chain is given back. -/
def replaceEntry (vol : Option BpbGeometry) (resolved : ResolvedPath) (fresh size : Nat) :
    Io Unit := do
  match ← (updateDirectoryEntry vol resolved.slot resolved.name fresh size).attempt with
  | .ok () => pure ()
  | .error status =>
    match ← (readDirectoryEntry vol resolved.slot).attempt with
    | .error _ => throw status
    | .ok observed =>
      if observed ≠ resolved.entry then throw status
      else
        let cleanup ← (freeChain vol fresh).attempt
        throw (statusAfter cleanup status)

def oldCluster (resolved : ResolvedPath) : Nat :=
  if resolved.existing then firstCluster resolved.entry else 0

def validateOld (g : BpbGeometry) (resolved : ResolvedPath) : Io Unit :=
  if resolved.existing then validateFileChain g resolved.entry (oldCluster resolved) else pure ()

def publishFile (vol : Option BpbGeometry) (path : Option CString) (resolved : ResolvedPath)
    (fresh size : Nat) : Io Unit :=
  if resolved.existing then replaceEntry vol resolved fresh size
  else
    publishChain vol path resolved.parentCluster resolved.name
      (fileEntry resolved.name fresh size) fresh

/-- `write_file`; `data` is `none` for a null pointer. -/
def writeFile (vol : Option BpbGeometry) (path : Option CString) (data : Option Bytes)
    (size : Nat) : Io Unit :=
  if size > 0xFFFFFFFF then throw .unsupported
  else if size ≠ 0 ∧ data.isNone then throw .unsupported
  else do
    let resolved ← resolvePath vol path
    if resolved.existing ∧ isDirectoryEntry resolved.entry then throw .isDirectory
    else
      let g ← geometryForWrite vol
      match checkedMulU32 g.sectorsPerCluster 512 with
      | none => throw .corrupt
      | some clusterBytes => do
        let clusters ← fileClusterCount size clusterBytes
        validateOld g resolved
        let fresh ← allocateChain vol clusters
        match ← (writeClusters g (data.getD fun _ => 0) clusters fresh 0 size).attempt with
        | .error status => do
          let cleanup ← discardChain vol fresh
          throw (statusAfter cleanup status)
        | .ok () =>
          publishFile vol path resolved fresh size
          releaseChain vol (oldCluster resolved)

def copySectors (g : BpbGeometry) (source target : Nat) : Nat → Nat → Nat → Io Nat
  | 0, _, remaining => pure remaining
  | n + 1, sectorIndex, remaining =>
    if remaining = 0 then pure remaining
    else
      match directoryLba g source sectorIndex, directoryLba g target sectorIndex with
      | some sourceLba, some targetLba => do
        let sector ← readSector sourceLba
        let take := if remaining < 512 then remaining else 512
        writeSector .data targetLba (dataSector sector.byte 0 take)
        copySectors g source target n (sectorIndex + 1) (remaining - take)
      | _, _ => throw .corrupt

def copyClusters (g : BpbGeometry) : Nat → Nat → Nat → Nat → Io Unit
  | 0, _, _, remaining => if remaining ≠ 0 then throw .corrupt else pure ()
  | n + 1, source, target, remaining => do
    let remaining ← copySectors g source target g.sectorsPerCluster 0 remaining
    let sourceNext ← chainNext g source true
    let targetNext ← chainNext g target true
    if sourceNext.isNone ≠ decide (n = 0) ∨ targetNext.isNone ≠ decide (n = 0) then throw .corrupt
    else copyClusters g n (sourceNext.getD 0) (targetNext.getD 0) remaining

def copyFile (vol : Option BpbGeometry) (source destination : Option CString) : Io Unit := do
  let source ← resolvePath vol source
  if !source.existing then throw .notFound
  else if isDirectoryEntry source.entry then throw .isDirectory
  else
    let target ← resolvePath vol destination
    if target.existing then throw .alreadyExists
    else
      let g ← geometryForWrite vol
      match checkedMulU32 g.sectorsPerCluster 512 with
      | none => throw .corrupt
      | some clusterBytes => do
        let size := le32 source.entry.byte 28
        let clusters ← fileClusterCount size clusterBytes
        if clusters > g.clusterCount then throw .corrupt
        else
          let sourceFirst := firstCluster source.entry
          validateFileChain g source.entry sourceFirst
          let fresh ← allocateChain vol clusters
          match ← (copyClusters g clusters sourceFirst fresh size).attempt with
          | .error status => do
            let cleanup ← discardChain vol fresh
            throw (statusAfter cleanup status)
          | .ok () =>
            publishChain vol destination target.parentCluster target.name
              (fileEntry target.name fresh size) fresh

def checkMovable (g : BpbGeometry) (entry : Entry) (first : Nat) : Io Unit :=
  if isDirectoryEntry entry then validateDirectoryChain g first else validateFileChain g entry first

/-- The second half of a move between directories. A refused deletion is rolled back only when
the old entry is read back. -/
def deleteSource (vol : Option BpbGeometry) (g : BpbGeometry) (source : ResolvedPath)
    (published : DirectorySlot) : Io Unit := do
  match ← (putDirectoryEntry g source.slot (source.entry.setByte 0 0xE5)).attempt with
  | .ok (.ok ()) => pure ()
  | .ok (.error true) => do
    let _ ← (deleteDirectoryEntry vol published).attempt
    throw .ioError
  | _ => throw .ioError

def move (vol : Option BpbGeometry) (source destination : Option CString) : Io Unit := do
  let source ← resolvePath vol source
  if !source.existing then throw .notFound
  else
    let target ← resolvePath vol destination
    if target.existing then throw .alreadyExists
    else
      let g ← geometryForWrite vol
      if isDirectoryEntry source.entry ∧ source.parentCluster ≠ target.parentCluster then
        throw .unsupported
      else do
        checkMovable g source.entry (firstCluster source.entry)
        if source.parentCluster = target.parentCluster then
          putDirectoryEntryStatus g source.slot (setName source.entry target.name)
        else
          match ← createDirectoryEntry vol target.parentCluster (shortComponent target.name)
              source.entry with
          | .error (status, _) => throw status
          | .ok published => deleteSource vol g source published

inductive Op where
  | touch (path : Option CString)
  | writeFile (path : Option CString) (data : Option Bytes) (size : Nat)
  | mkdir (path : Option CString)
  | remove (path : Option CString)
  | copyFile (source destination : Option CString)
  | move (source destination : Option CString)

def Op.call (vol : Option BpbGeometry) : Op → Io Unit
  | .touch path => Write.touch vol path
  | .writeFile path data size => Write.writeFile vol path data size
  | .mkdir path => Write.mkdir vol path
  | .remove path => Write.remove vol path
  | .copyFile source destination => Write.copyFile vol source destination
  | .move source destination => Write.move vol source destination

def Op.status (vol : Option BpbGeometry) (op : Op) (dev : Device) : Status :=
  match (op.call vol).exec dev with
  | (.ok (), _) => .ok
  | (.error status, _) => status

def Op.after (vol : Option BpbGeometry) (op : Op) (dev : Device) : Device :=
  ((op.call vol).exec dev).2

def runOps (vol : Option BpbGeometry) : List Op → Device → Device
  | [], dev => dev
  | op :: ops, dev => runOps vol ops (op.after vol dev)

end Linux95.Fat32.Write
