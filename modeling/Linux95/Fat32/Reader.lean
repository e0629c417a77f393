import Linux95.Fat32.Helpers

/-! `filesystem/fat32.cpp`, the read path. The mounted volume is an argument: `none` before a
successful `mount`. A status other than `Ok` is thrown. -/

namespace Linux95.Fat32
open Base Storage

def validDataCluster (g : BpbGeometry) (cluster : Nat) : Bool :=
  2 ≤ cluster && cluster - 2 < g.clusterCount

def mount : Io (Option BpbGeometry) := do
  let dev ← (get : Io Device)
  if !dev.present then pure none
  else
    match ← (readSector 0).attempt with
    | .error _ => pure none
    | .ok bootSector => pure (parseBpb bootSector dev.sectorCount)

/-- The link stored for `cluster` in the active FAT; `none` is the end of the chain. -/
def nextCluster (g : BpbGeometry) (cluster : Nat) : Io (Option Nat) :=
  match fatEntryLocation cluster g.fatBeginLba with
  | none => throw .corrupt
  | some (fatSectorLba, inside) =>
    if !validDataCluster g cluster then throw .corrupt
    else
      match (checkedMulU32 g.activeFat g.sectorsPerFat).bind (checkedAddU32 fatSectorLba) with
      | none => throw .corrupt
      | some lba =>
        if lba ≥ g.firstDataLba then throw .corrupt
        else do
          let fatSector ← readSector lba
          let value := fat28 (le32 fatSector.byte inside)
          match classifyFatEntry value with
          | .endOfChain => pure none
          | .next => if validDataCluster g value then pure (some value) else throw .corrupt
          | _ => throw .corrupt

structure FileEntry where
  name : CString
  isDirectory : Bool
  size : Nat
  deriving DecidableEq, Repr

def DirectoryEntry.toFileEntry (e : DirectoryEntry) : FileEntry := ⟨e.name, e.isDirectory, e.size⟩

section Walk
variable {κ ρ : Type}

/-- The slots of one sector from `offset` on: `visit` sees every entry in use and may stop the
walk; the end marker stops it too. -/
def walkSlots (visit : DirectoryEntry → κ → κ ⊕ ρ) (atEnd : κ → ρ) (sector : Sector) :
    Nat → Nat → κ → κ ⊕ ρ
  | 0, _, k => .inl k
  | n + 1, offset, k =>
    match decodeDirectoryEntry (Sector.slot sector offset) with
    | .end => .inr (atEnd k)
    | .skip => walkSlots visit atEnd sector n (offset + 32) k
    | .normal entry =>
      match visit entry k with
      | .inr r => .inr r
      | .inl k' => walkSlots visit atEnd sector n (offset + 32) k'

def walkSectors (visit : DirectoryEntry → κ → κ ⊕ ρ) (atEnd : κ → ρ) (clusterLba : Nat) :
    Nat → Nat → κ → Io (κ ⊕ ρ)
  | 0, _, k => pure (.inl k)
  | n + 1, sectorIndex, k =>
    match checkedAddU32 clusterLba sectorIndex with
    | none => throw .corrupt
    | some lba => do
      let sector ← readSector lba
      match walkSlots visit atEnd sector 16 0 k with
      | .inr r => pure (.inr r)
      | .inl k' => walkSectors visit atEnd clusterLba n (sectorIndex + 1) k'

/-- The loop `find_entry` and `read_directory_entry_at` share; the first
argument counts the clusters the walk may still enter. -/
def walkClusters (g : BpbGeometry) (visit : DirectoryEntry → κ → κ ⊕ ρ) (atEnd : κ → ρ) :
    Nat → Nat → κ → Io ρ
  | 0, _, _ => throw .corrupt
  | n + 1, cluster, k =>
    if !validDataCluster g cluster then throw .corrupt
    else
      match clusterToLba g.firstDataLba g.sectorsPerCluster cluster with
      | none => throw .corrupt
      | some clusterLba => do
        match ← walkSectors visit atEnd clusterLba g.sectorsPerCluster 0 k with
        | .inr r => pure r
        | .inl k' =>
          match ← nextCluster g cluster with
          | none => pure (atEnd k')
          | some next => walkClusters g visit atEnd n next k'

/-- The slots of one sector for `emit_directory`: the visitor's answer `false` or the end marker
ends the listing. -/
def emitSlots (visitor : FileEntry → κ → Bool × κ) (sector : Sector) : Nat → Nat → κ → κ × Bool
  | 0, _, k => (k, false)
  | n + 1, offset, k =>
    match decodeDirectoryEntry (Sector.slot sector offset) with
    | .end => (k, true)
    | .skip => emitSlots visitor sector n (offset + 32) k
    | .normal decoded =>
      if (visitor decoded.toFileEntry k).1 then
        emitSlots visitor sector n (offset + 32) (visitor decoded.toFileEntry k).2
      else ((visitor decoded.toFileEntry k).2, true)

def emitSectors (visitor : FileEntry → κ → Bool × κ) (clusterLba : Nat) :
    Nat → Nat → κ → Io (κ × Option Status)
  | 0, _, k => pure (k, none)
  | n + 1, sectorIndex, k =>
    match checkedAddU32 clusterLba sectorIndex with
    | none => pure (k, some .corrupt)
    | some lba => do
      match ← (readSector lba).attempt with
      | .error status => pure (k, some status)
      | .ok sector =>
        if (emitSlots visitor sector 16 0 k).2 then
          pure ((emitSlots visitor sector 16 0 k).1, some .ok)
        else emitSectors visitor clusterLba n (sectorIndex + 1) (emitSlots visitor sector 16 0 k).1

def emitClusters (g : BpbGeometry) (visitor : FileEntry → κ → Bool × κ) :
    Nat → Nat → κ → Io (κ × Status)
  | 0, _, k => pure (k, .corrupt)
  | n + 1, cluster, k =>
    if !validDataCluster g cluster then pure (k, .corrupt)
    else
      match clusterToLba g.firstDataLba g.sectorsPerCluster cluster with
      | none => pure (k, .corrupt)
      | some clusterLba => do
        match ← emitSectors visitor clusterLba g.sectorsPerCluster 0 k with
        | (k', some status) => pure (k', status)
        | (k', none) =>
          match ← (nextCluster g cluster).attempt with
          | .error status => pure (k', status)
          | .ok none => pure (k', .ok)
          | .ok (some next) => emitClusters g visitor n next k'

/-- `emit_directory`: what the visitor has made of the context, also when the listing fails. -/
def emitDirectory (g : BpbGeometry) (firstCluster : Nat) (visitor : FileEntry → κ → Bool × κ)
    (context : κ) : Io (κ × Status) :=
  emitClusters g visitor g.clusterCount firstCluster context

end Walk

def findEntry (g : BpbGeometry) (firstCluster : Nat) (wanted : CString) : Io DirectoryEntry := do
  match ← walkClusters g
      (fun entry () => if asciiIequals entry.name wanted then .inr (some entry) else .inl ())
      (fun _ => none) g.clusterCount firstCluster () with
  | none => throw .notFound
  | some entry => pure entry

def readDirectoryEntryAt (g : BpbGeometry) (firstCluster index : Nat) : Io (Option DirectoryEntry) :=
  walkClusters g
    (fun entry logicalIndex =>
      if logicalIndex = index then .inr (some entry) else .inl ((logicalIndex + 1) % 2 ^ 32))
    (fun _ => none) g.clusterCount firstCluster 0

def splitSlash : CString → List CString
  | [] => [[]]
  | c :: cs =>
    if c = 0x2F then [] :: splitSlash cs
    else
      match splitSlash cs with
      | [] => [[c]]
      | w :: ws => (c :: w) :: ws

/-- The component loop of `resolve_entry`. -/
def resolveComponents (g : BpbGeometry) : Nat → List CString → Io DirectoryEntry
  | _, [] => throw .unsupported
  | directoryCluster, component :: rest =>
    if component.length > 12 then throw .unsupported
    else do
      let entry ← findEntry g directoryCluster component
      if rest = [] then pure entry
      else if !entry.isDirectory then throw .notDirectory
      else if !validDataCluster g entry.firstCluster then throw .corrupt
      else resolveComponents g entry.firstCluster rest

def pathBody (path : CString) : CString :=
  (if path.headD 0 = 0x2F then path.tail else path).takeWhile (· ≠ 0)

def resolveEntry (vol : Option BpbGeometry) (path : Option CString) : Io DirectoryEntry :=
  match vol, path with
  | none, _ => throw .notMounted
  | some _, none => throw .unsupported
  | some g, some path =>
    if (pathBody path).headD 0 = 0 ∨ !validPath (pathBody path) then throw .invalidName
    else resolveComponents g g.rootCluster (splitSlash (pathBody path))

def isRootPath (path : CString) : Bool := path.headD 0 = 0x2F && path.tail.headD 0 = 0

def resolveDirectoryCluster (vol : Option BpbGeometry) (path : Option CString) : Io Nat :=
  match vol, path with
  | none, _ => throw .notMounted
  | some _, none => throw .unsupported
  | some g, some path =>
    if isRootPath path then pure g.rootCluster
    else do
      let entry ← resolveEntry (some g) (some path)
      if !entry.isDirectory then throw .notDirectory
      else if !validDataCluster g entry.firstCluster then throw .corrupt
      else pure entry.firstCluster

def listDirectory {κ : Type} (vol : Option BpbGeometry) (path : Option CString)
    (visitor : Option (FileEntry → κ → Bool × κ)) (context : κ) : Io (κ × Status) :=
  match vol, visitor with
  | none, _ => pure (context, .notMounted)
  | some _, none => pure (context, .unsupported)
  | some g, some visitor => do
    match ← (resolveDirectoryCluster (some g) path).attempt with
    | .error status => pure (context, status)
    | .ok directoryCluster => emitDirectory g directoryCluster visitor context

def statPath (vol : Option BpbGeometry) (path : Option CString) : Io FileEntry :=
  match vol, path with
  | none, _ => throw .notMounted
  | some _, none => throw .unsupported
  | some g, some path =>
    if isRootPath path then pure ⟨[0x2F], true, 0⟩
    else do
      let resolved ← resolveEntry (some g) (some path)
      pure resolved.toFileEntry

def readDirectoryEntry (vol : Option BpbGeometry) (path : Option CString) (index : Nat) :
    Io (Option FileEntry) :=
  match vol with
  | none => throw .notMounted
  | some g => do
    let directoryCluster ← resolveDirectoryCluster vol path
    let entry ← readDirectoryEntryAt g directoryCluster index
    pure (entry.map DirectoryEntry.toFileEntry)

/-- The first loop of `read_file`: the cluster that holds the offset and the links followed. -/
def skipClusters (g : BpbGeometry) : Nat → Nat → Nat → Io (Nat × Nat)
  | 0, cluster, transitions => pure (cluster, transitions)
  | clustersToSkip + 1, cluster, transitions =>
    if transitions ≥ g.clusterCount ∨ !validDataCluster g cluster then throw .corrupt
    else do
      match ← nextCluster g cluster with
      | none => throw .corrupt
      | some next => skipClusters g clustersToSkip next (transitions + 1)

def readSectors (clusterLba : Nat) : Nat → Nat → Nat → Nat → List UInt8 → Io (Nat × List UInt8)
  | 0, _, _, remaining, buffer => pure (remaining, buffer)
  | n + 1, sectorIndex, insideSector, remaining, buffer =>
    if remaining = 0 then pure (remaining, buffer)
    else
      match checkedAddU32 clusterLba sectorIndex with
      | none => throw .corrupt
      | some lba => do
        let sector ← readSector lba
        let amount := if 512 - insideSector > remaining then remaining else 512 - insideSector
        readSectors clusterLba n (sectorIndex + 1) 0 (remaining - amount)
          (buffer ++ (List.range amount).map fun i => sector.byte (insideSector + i))

/-- The second loop of `read_file`; the first argument counts the clusters it may still enter. -/
def readClusters (g : BpbGeometry) (reachesEof : Bool) :
    Nat → Nat → Nat → Nat → List UInt8 → Io (List UInt8)
  | 0, _, _, _, _ => throw .corrupt
  | n + 1, cluster, clusterOffset, remaining, buffer =>
    if !validDataCluster g cluster then throw .corrupt
    else
      match clusterToLba g.firstDataLba g.sectorsPerCluster cluster with
      | none => throw .corrupt
      | some clusterLba => do
        let (remaining, buffer) ← readSectors clusterLba (g.sectorsPerCluster - clusterOffset / 512)
          (clusterOffset / 512) (clusterOffset % 512) remaining buffer
        if remaining = 0 then
          if !reachesEof then pure buffer
          else
            match ← nextCluster g cluster with
            | none => pure buffer
            | some _ => throw .corrupt
        else
          match ← nextCluster g cluster with
          | none => throw .corrupt
          | some next => readClusters g reachesEof n next 0 remaining buffer

/-- `read_file`: the bytes read and the file size. `buffer` is false for a null pointer. -/
def readFile (vol : Option BpbGeometry) (path : Option CString) (offset : Nat) (buffer : Bool)
    (bufferSize : Nat) : Io (List UInt8 × Nat) :=
  match vol with
  | none => throw .notMounted
  | some g =>
    if !buffer then throw .unsupported
    else do
      let entry ← resolveEntry vol path
      if entry.isDirectory then throw .isDirectory
      else if offset ≥ entry.size ∨ bufferSize = 0 then pure ([], entry.size)
      else if !validDataCluster g entry.firstCluster then throw .corrupt
      else
        match checkedMulU32 g.sectorsPerCluster 512 with
        | none => throw .corrupt
        | some clusterBytes => do
          let bytesUntilEof := subU32 entry.size offset
          let remaining := if bytesUntilEof > bufferSize then bufferSize else bytesUntilEof
          if remaining = 0 then pure ([], entry.size)
          else
            let (cluster, transitions) ← skipClusters g (offset / clusterBytes) entry.firstCluster 0
            let bytes ← readClusters g (remaining = bytesUntilEof) (g.clusterCount - transitions)
              cluster (offset % clusterBytes) remaining []
            pure (bytes, entry.size)

end Linux95.Fat32
