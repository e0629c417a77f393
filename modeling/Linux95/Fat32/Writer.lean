import Linux95.Fat32.Reader

/-! `filesystem/fat32_write.cpp`. A status other than `Ok` is thrown; where the source looks at
the status of a call before going on, the call is an `attempt`. Loops count down what the
source counts up. -/

namespace Linux95.Fat32.Write
open Base Storage

structure DirectorySlot where
  lba : Nat
  offset : Nat
  deriving DecidableEq, Repr

structure ResolvedPath where
  parentCluster : Nat
  name : ShortName
  existing : Bool
  slot : DirectorySlot
  entry : Entry

def validCluster (g : BpbGeometry) (cluster : Nat) : Bool :=
  2 ≤ cluster && cluster - 2 < g.clusterCount

def geometryForWrite (vol : Option BpbGeometry) : Io BpbGeometry :=
  match vol with
  | none => throw .notMounted
  | some g => if !g.mirroringEnabled then throw .unsupported else pure g

def entryLocation (g : BpbGeometry) (cluster copy : Nat) : Option (Nat × Nat) :=
  if !validCluster g cluster ∨ copy ≥ g.fatCount then none
  else if cluster / 128 ≥ g.sectorsPerFat then none
  else
    (checkedMulU32 copy g.sectorsPerFat).bind fun copyOffset =>
    (checkedAddU32 g.fatBeginLba copyOffset).bind fun fatStart =>
    (checkedAddU32 fatStart (cluster / 128)).bind fun lba =>
    if lba < g.firstDataLba ∧ lba < g.totalSectors then some (lba, cluster % 128 * 4) else none

def Sector.put32 (s : Sector) (offset value : Nat) : Sector := fun j =>
  if offset ≤ j.val ∧ j.val < offset + 4 then UInt8.ofNat (value / 2 ^ (8 * (j.val - offset)))
  else s j

def readEntry (g : BpbGeometry) (cluster copy : Nat) : Io Nat :=
  match entryLocation g cluster copy with
  | none => throw .corrupt
  | some (lba, inside) => do
    let sector ← readSector lba
    pure (le32 sector.byte inside)

def writeRaw (g : BpbGeometry) (cluster copy raw : Nat) : Io Unit :=
  match entryLocation g cluster copy with
  | none => throw .corrupt
  | some (lba, inside) => do
    let sector ← readSector lba
    writeSector .fat lba (Sector.put32 sector inside raw)

/-- The mirror comparison of `chain_next`, for the last `n` copies. -/
def checkCopies (g : BpbGeometry) (cluster value : Nat) : Nat → Io Unit
  | 0 => pure ()
  | n + 1 => do
    let mirrored ← readEntry g cluster (g.fatCount - (n + 1))
    if fat28 mirrored ≠ value then throw .corrupt else checkCopies g cluster value n

/-- The successor of `cluster` in FAT copy 0; `none` is the end of the chain. -/
def chainNext (g : BpbGeometry) (cluster : Nat) (check : Bool) : Io (Option Nat) := do
  let raw ← readEntry g cluster 0
  let value := fat28 raw
  checkCopies g cluster value (if check then g.fatCount - 1 else 0)
  match classifyFatEntry value with
  | .endOfChain => pure none
  | .next => if validCluster g value then pure (some value) else throw .corrupt
  | _ => throw .corrupt

def directoryLba (g : BpbGeometry) (cluster sectorIndex : Nat) : Option Nat :=
  if validCluster g cluster ∧ sectorIndex < g.sectorsPerCluster then
    (clusterToLba g.firstDataLba g.sectorsPerCluster cluster).bind fun first =>
    (checkedAddU32 first sectorIndex).bind fun lba =>
    if lba < g.totalSectors then some lba else none
  else none

def validSlot (g : BpbGeometry) (slot : DirectorySlot) : Bool :=
  g.firstDataLba ≤ slot.lba && slot.lba < g.totalSectors && slot.offset < 512 &&
    slot.offset % 32 = 0

def liveShortEntry (entry : Entry) : Bool :=
  entry.byte 0 ≠ 0 && entry.byte 0 ≠ 0xE5 && entry.byte 11 ≠ 0x0F && entry.byte 11 &&& 0x08 = 0

def nameMatches (entry : Entry) (name : ShortName) : Bool :=
  decide (∀ i : Fin 11, asciiUpper (entry.byte i.val) = name i)

/-- What `find_in_directory` knows about a slot for a new entry: `freeSlot` and `freeIsEnd`
describe the first free slot met, if `haveFree`. -/
structure FreeSearch where
  haveFree : Bool
  freeSlot : DirectorySlot
  freeIsEnd : Bool

def FreeSearch.none : FreeSearch := ⟨false, ⟨0, 0⟩, false⟩

inductive Search where
  | found (slot : DirectorySlot) (entry : Entry)
  | notFound (free : FreeSearch) (tail : Nat)

def FreeSearch.note (st : FreeSearch) (entry : Entry) (slot : DirectorySlot) : FreeSearch :=
  if (entry.byte 0 = 0 ∨ entry.byte 0 = 0xE5) ∧ !st.haveFree then
    ⟨true, slot, entry.byte 0 = 0⟩
  else st

def findInSlots (name : ShortName) (cluster lba : Nat) (sector : Sector) :
    Nat → Nat → FreeSearch → FreeSearch ⊕ Search
  | 0, _, st => .inl st
  | n + 1, offset, st =>
    let entry := Sector.slot sector offset
    let st := st.note entry ⟨lba, offset⟩
    if entry.byte 0 = 0 then .inr (.notFound st cluster)
    else if liveShortEntry entry ∧ nameMatches entry name then .inr (.found ⟨lba, offset⟩ entry)
    else findInSlots name cluster lba sector n (offset + 32) st

def findInSectors (g : BpbGeometry) (name : ShortName) (cluster : Nat) :
    Nat → Nat → FreeSearch → Io (FreeSearch ⊕ Search)
  | 0, _, st => pure (.inl st)
  | n + 1, sectorIndex, st =>
    match directoryLba g cluster sectorIndex with
    | none => throw .corrupt
    | some lba => do
      let sector ← readSector lba
      match findInSlots name cluster lba sector 16 0 st with
      | .inr r => pure (.inr r)
      | .inl st => findInSectors g name cluster n (sectorIndex + 1) st

def findInClusters (g : BpbGeometry) (name : ShortName) : Nat → Nat → FreeSearch → Io Search
  | 0, _, _ => throw .corrupt
  | n + 1, cluster, st => do
    let next ← chainNext g cluster false
    match ← findInSectors g name cluster g.sectorsPerCluster 0 st with
    | .inr r => pure r
    | .inl st =>
      match next with
      | none => pure (.notFound st cluster)
      | some next => findInClusters g name n next st

def findInDirectory (g : BpbGeometry) (firstCluster : Nat) (name : ShortName) : Io Search :=
  if !validCluster g firstCluster then throw .corrupt
  else findInClusters g name g.clusterCount firstCluster .none

def encodeComponent (name : CString) : Option ShortName :=
  if (name.takeWhile (· ≠ 0)).length < 13 then encodeShortName (name.takeWhile (· ≠ 0)) else none

def shortPart (encoded : ShortName) : Nat → Nat → CString
  | _, 0 => []
  | i, n + 1 => if encoded.byte i = 0x20 then [] else encoded.byte i :: shortPart encoded (i + 1) n

def shortComponent (encoded : ShortName) : CString :=
  shortPart encoded 0 8 ++ if encoded.byte 8 ≠ 0x20 then 0x2E :: shortPart encoded 8 3 else []

def Sector.setSlot (s : Sector) (offset : Nat) (entry : Entry) : Sector := fun j =>
  if offset ≤ j.val ∧ j.val < offset + 32 then entry.byte (j.val - offset) else s j

/-- `put_directory_entry`. A refused write answers whether the slot is known to be unchanged. -/
def putDirectoryEntry (g : BpbGeometry) (slot : DirectorySlot) (entry : Entry) :
    Io (Except Bool Unit) :=
  if !validSlot g slot then throw .corrupt
  else do
    match ← (readSector slot.lba).attempt with
    | .error _ => pure (.error false)
    | .ok sector =>
      match ← (writeSector .data slot.lba (Sector.setSlot sector slot.offset entry)).attempt with
      | .ok () => pure (.ok ())
      | .error _ =>
        match ← (readSector slot.lba).attempt with
        | .error _ => pure (.error false)
        | .ok observed =>
          pure (.error (decide (Sector.slot observed slot.offset = Sector.slot sector slot.offset)))

def putDirectoryEntryStatus (g : BpbGeometry) (slot : DirectorySlot) (entry : Entry) : Io Unit :=
  if !validSlot g slot then throw .corrupt
  else do
    let sector ← readSector slot.lba
    writeSector .data slot.lba (Sector.setSlot sector slot.offset entry)

def clearEndMarker (g : BpbGeometry) (slot : DirectorySlot) : Io Unit :=
  if !validSlot g slot then throw .corrupt
  else do
    let sector ← readSector slot.lba
    if sector.byte slot.offset = 0 then pure ()
    else writeSector .data slot.lba (sector.setByte slot.offset 0)

def firstCluster (entry : Entry) : Nat :=
  le16 entry.byte 20 % 2 ^ 12 * 2 ^ 16 + le16 entry.byte 26

def setFirstCluster (entry : Entry) (cluster : Nat) : Entry :=
  (((entry.setByte 20 (UInt8.ofNat (cluster / 2 ^ 16))).setByte 21
    (UInt8.ofNat (cluster / 2 ^ 24))).setByte 26 (UInt8.ofNat cluster)).setByte 27
    (UInt8.ofNat (cluster / 2 ^ 8))

def setSize (entry : Entry) (size : Nat) : Entry := fun j =>
  if 28 ≤ j.val then UInt8.ofNat (size / 2 ^ (8 * (j.val - 28))) else entry j

def setName (entry : Entry) (name : ShortName) : Entry := fun j =>
  if j.val < 11 then name.byte j.val else entry j

def isDirectoryEntry (entry : Entry) : Bool := entry.byte 11 &&& 0x10 ≠ 0

def isDotEntry (entry : Entry) : Bool :=
  isDirectoryEntry entry &&
    (entry.byte 0 = 0x2E && (entry.byte 1 = 0x20 || entry.byte 1 = 0x2E)) &&
    decide (∀ i : Fin 11, 2 ≤ i.val → entry.byte i.val = 0x20)

/-- The slots of one sector for `directory_is_empty`: `some true` past the end marker,
`some false` when every slot is free or a dot entry, `none` when something else is there. -/
def emptySlots (sector : Sector) : Nat → Nat → Option Bool
  | 0, _ => some false
  | n + 1, offset =>
    let entry := Sector.slot sector offset
    if entry.byte 0 = 0 then some true
    else if entry.byte 0 ≠ 0xE5 ∧ !isDotEntry entry then none
    else emptySlots sector n (offset + 32)

def emptySectors (g : BpbGeometry) (cluster : Nat) : Nat → Nat → Io Bool
  | 0, _ => pure false
  | n + 1, sectorIndex =>
    match directoryLba g cluster sectorIndex with
    | none => throw .corrupt
    | some lba => do
      let sector ← readSector lba
      match emptySlots sector 16 0 with
      | none => throw .directoryNotEmpty
      | some true => pure true
      | some false => emptySectors g cluster n (sectorIndex + 1)

def emptyCluster (g : BpbGeometry) (cluster : Nat) (pastEndMarker : Bool) : Io Bool :=
  if pastEndMarker then pure true else emptySectors g cluster g.sectorsPerCluster 0

def emptyClusters (g : BpbGeometry) : Nat → Nat → (pastEndMarker : Bool) → Io Unit
  | 0, _, _ => throw .corrupt
  | n + 1, cluster, pastEndMarker => do
    let next ← chainNext g cluster true
    let pastEndMarker ← emptyCluster g cluster pastEndMarker
    match next with
    | none => pure ()
    | some next => emptyClusters g n next pastEndMarker

def directoryIsEmpty (g : BpbGeometry) (first : Nat) : Io Unit :=
  if !validCluster g first then throw .corrupt else emptyClusters g g.clusterCount first false

/-- The walk to the end of a chain that `validate_directory_chain` and the first pass of
`free_chain` make. -/
def validateChain (g : BpbGeometry) : Nat → Nat → Io Unit
  | 0, _ => throw .corrupt
  | n + 1, cluster => do
    match ← chainNext g cluster true with
    | none => pure ()
    | some next => validateChain g n next

def validateDirectoryChain (g : BpbGeometry) (first : Nat) : Io Unit :=
  if !validCluster g first then throw .corrupt else validateChain g g.clusterCount first

def fileClusterCount (size clusterBytes : Nat) : Io Nat :=
  if size > 0xFFFFFFFF then throw .unsupported
  else if clusterBytes = 0 then throw .corrupt
  else pure (size / clusterBytes + if size % clusterBytes ≠ 0 then 1 else 0)

/-- `n` more links, the last of which must be the end of the chain and no other. -/
def validateLinks (g : BpbGeometry) : Nat → Nat → Io Unit
  | 0, _ => pure ()
  | n + 1, cluster => do
    let next ← chainNext g cluster true
    if next.isNone ≠ decide (n = 0) then throw .corrupt
    else validateLinks g n (next.getD 0)

/-- The check of a file's chain against its size, as `validate_file_chain` and `write_file`
make it. -/
def validateFileChain (g : BpbGeometry) (entry : Entry) (first : Nat) : Io Unit :=
  match checkedMulU32 g.sectorsPerCluster 512 with
  | none => throw .corrupt
  | some clusterBytes => do
    let count ← fileClusterCount (le32 entry.byte 28) clusterBytes
    if decide (count = 0) ≠ decide (first = 0) ∨ count > g.clusterCount ∨
        (first ≠ 0 ∧ !validCluster g first) then throw .corrupt
    else validateLinks g count first

/-- The component loop of `resolve_path` after the whole path has been validated. -/
def resolveFrom (g : BpbGeometry) : Nat → List CString → Io ResolvedPath
  | _, [] => throw .invalidName
  | parent, component :: rest =>
    match encodeShortName component with
    | none => throw .invalidName
    | some encoded => do
      match ← findInDirectory g parent encoded with
      | .notFound _ _ =>
        if rest = [] then pure ⟨parent, encoded, false, ⟨0, 0⟩, Entry.zero⟩ else throw .notFound
      | .found slot entry =>
        if rest = [] then pure ⟨parent, encoded, true, slot, entry⟩
        else if !isDirectoryEntry entry then throw .notDirectory
        else
          let child := le16 entry.byte 20 * 2 ^ 16 + le16 entry.byte 26
          if !validCluster g child then throw .corrupt else resolveFrom g child rest

def pathLength (path : CString) : Nat := ((path.take 128).takeWhile (· ≠ 0)).length

def writePathBody (path : CString) : CString :=
  (path.take (pathLength path)).drop (if path.headD 0 = 0x2F then 1 else 0)

def resolvePath (vol : Option BpbGeometry) (path : Option CString) : Io ResolvedPath :=
  match path with
  | none => throw .invalidName
  | some path =>
    if pathLength path = 0 ∨ pathLength path = 128 then throw .invalidName
    else if writePathBody path = [] then throw .invalidName
    else if (splitSlash (writePathBody path)).any (fun c => (encodeShortName c).isNone) then
      throw .invalidName
    else do
      let g ← geometryForWrite vol
      resolveFrom g g.rootCluster (splitSlash (writePathBody path))

def readDirectoryEntry (vol : Option BpbGeometry) (slot : DirectorySlot) : Io Entry := do
  let g ← geometryForWrite vol
  if !validSlot g slot then throw .corrupt
  else
    let sector ← readSector slot.lba
    pure (Sector.slot sector slot.offset)

def updateDirectoryEntry (vol : Option BpbGeometry) (slot : DirectorySlot) (name : ShortName)
    (first size : Nat) : Io Unit := do
  let g ← geometryForWrite vol
  if first ≠ 0 ∧ !validCluster g first then throw .corrupt
  else
    let entry ← readDirectoryEntry vol slot
    if !liveShortEntry entry then throw .notFound
    else
      let renamed := setName entry name
      -- the reserved high nibble of the first-cluster field is kept
      let high := UInt8.ofNat ((renamed.byte 21).toNat / 16 * 16 + first / 2 ^ 24 % 16)
      let linked := (setFirstCluster renamed first).setByte 21 high
      putDirectoryEntryStatus g slot (setSize linked size)

def deleteDirectoryEntry (vol : Option BpbGeometry) (slot : DirectorySlot) : Io Unit := do
  let entry ← readDirectoryEntry vol slot
  if !liveShortEntry entry then throw .notFound
  else
    let g ← geometryForWrite vol
    putDirectoryEntryStatus g slot (entry.setByte 0 0xE5)

def readFatEntry (vol : Option BpbGeometry) (cluster : Nat) : Io Nat :=
  match vol with
  | none => throw .notMounted
  | some g => do
    let raw ← readEntry g cluster g.activeFat
    pure (fat28 raw)

/-- The first loop of `write_fat_entry`: the old entries of the last `n` copies. -/
def readCopies (g : BpbGeometry) (cluster : Nat) : Nat → List Nat → Io (List Nat)
  | 0, old => pure old
  | n + 1, old => do
    let raw ← readEntry g cluster (g.fatCount - (n + 1))
    if old ≠ [] ∧ fat28 raw ≠ fat28 (old.headD 0) then throw .corrupt
    else readCopies g cluster n (old ++ [raw])

/-- Put the old entries of copies `copy ..` back, whatever comes of it. -/
def restoreCopies (g : BpbGeometry) (cluster : Nat) : Nat → List Nat → Io Unit
  | _, [] => pure ()
  | copy, raw :: old => do
    let _ ← (writeRaw g cluster copy raw).attempt
    restoreCopies g cluster (copy + 1) old

/-- The second loop of `write_fat_entry`; `done` holds the old entries of the copies written. -/
def writeCopies (g : BpbGeometry) (cluster value : Nat) : List Nat → List Nat → Io Unit
  | _, [] => pure ()
  | done, raw :: old => do
    match ← (writeRaw g cluster done.length (raw / 2 ^ 28 * 2 ^ 28 + value)).attempt with
    | .ok () => writeCopies g cluster value (done ++ [raw]) old
    | .error _ => do
      restoreCopies g cluster 0 done
      throw .ioError

def writeFatEntry (vol : Option BpbGeometry) (cluster value : Nat) : Io Unit := do
  let g ← geometryForWrite vol
  if !validCluster g cluster ∨ !(value = 0 ∨ validCluster g value ∨ isEoc value) ∨
      value > 0x0FFFFFFF then throw .corrupt
  else
    let old ← readCopies g cluster g.fatCount []
    writeCopies g cluster value [] old

/-- The second pass of `free_chain`. -/
def freeLinks (vol : Option BpbGeometry) (g : BpbGeometry) : Nat → Nat → Io Unit
  | 0, _ => throw .corrupt
  | n + 1, cluster => do
    let next ← chainNext g cluster false
    writeFatEntry vol cluster 0
    match next with
    | none => pure ()
    | some next => freeLinks vol g n next

/-- `free_chain`: the whole chain is validated before any entry is freed. -/
def freeChain (vol : Option BpbGeometry) (first : Nat) : Io Unit := do
  let g ← geometryForWrite vol
  if first = 0 then pure ()
  else if !validCluster g first then throw .corrupt
  else
    validateChain g g.clusterCount first
    freeLinks vol g g.clusterCount first

def statusAfter (cleanup : Except Status Unit) (status : Status) : Status :=
  match cleanup with
  | .ok () => status
  | .error _ => .ioError

def discardChain (vol : Option BpbGeometry) (first : Nat) : Io (Except Status Unit) :=
  if first ≠ 0 then (freeChain vol first).attempt else pure (.ok ())

/-- The scan of `allocate_chain`: `need` clusters are still missing, `n` candidates are left. -/
def allocateLoop (vol : Option BpbGeometry) (g : BpbGeometry) :
    Nat → (need first previous : Nat) → Io Nat
  | 0, need, first, _ =>
    if need = 0 then pure first
    else do
      let cleanup ← discardChain vol first
      throw (statusAfter cleanup .noSpace)
  | n + 1, need, first, previous =>
    if need = 0 then pure first
    else do
      let candidate := g.clusterCount - (n + 1) + 2
      match ← (readFatEntry vol candidate).attempt with
      | .error status => do
        let cleanup ← discardChain vol first
        throw (statusAfter cleanup status)
      | .ok value =>
        if value ≠ 0 then allocateLoop vol g n need first previous
        else
          match ← (writeFatEntry vol candidate 0x0FFFFFFF).attempt with
          | .error status => do
            let cleanup ← discardChain vol first
            throw (statusAfter cleanup status)
          | .ok () =>
            if previous ≠ 0 then
              match ← (writeFatEntry vol previous candidate).attempt with
              | .error status => do
                let discard ← (writeFatEntry vol candidate 0).attempt
                let cleanup ← (freeChain vol first).attempt
                throw (statusAfter discard (statusAfter cleanup status))
              | .ok () => allocateLoop vol g n (need - 1) first candidate
            else allocateLoop vol g n (need - 1) candidate candidate

def allocateChain (vol : Option BpbGeometry) (clusters : Nat) : Io Nat := do
  let g ← geometryForWrite vol
  if clusters = 0 then pure 0
  else if clusters > g.clusterCount then throw .noSpace
  else allocateLoop vol g g.clusterCount clusters 0 0

def tailUnlinked (g : BpbGeometry) (tail : Nat) : Nat → Io Bool
  | 0 => pure true
  | n + 1 => do
    match ← (readEntry g tail (g.fatCount - (n + 1))).attempt with
    | .error _ => pure false
    | .ok raw => if !isEoc raw then pure false else tailUnlinked g tail n

def freeChainQuietly (vol : Option BpbGeometry) (first : Nat) : Io Unit := do
  let _ ← (freeChain vol first).attempt
  pure ()

def reclaimIfUnlinked (vol : Option BpbGeometry) (g : BpbGeometry) (tail fresh : Nat) : Io Unit := do
  match ← tailUnlinked g tail g.fatCount with
  | false => pure ()
  | true => freeChainQuietly vol fresh

def fillCluster (g : BpbGeometry) (cluster : Nat) (sector : Sector) : Nat → Io Unit
  | 0 => pure ()
  | n + 1 =>
    match directoryLba g cluster (g.sectorsPerCluster - (n + 1)) with
    | none => throw .corrupt
    | some lba => do
      writeSector .data lba sector
      fillCluster g cluster sector n

/-- Where the end marker goes once the slot `vacant`, which held it, is used; `none` when the
directory has to grow for it. -/
def nextMarker (g : BpbGeometry) (vacant : DirectorySlot) (tail : Nat) :
    Io (Option DirectorySlot) :=
  if vacant.offset < 512 - 32 then pure (some ⟨vacant.lba, vacant.offset + 32⟩)
  else
    let sectorIndex := subU32 vacant.lba g.firstDataLba % g.sectorsPerCluster
    if sectorIndex + 1 < g.sectorsPerCluster then pure (some ⟨(vacant.lba + 1) % 2 ^ 32, 0⟩)
    else do
      match ← chainNext g tail false with
      | none => pure none
      | some next => do
        let _ ← chainNext g next false
        match directoryLba g next 0 with
        | none => throw .corrupt
        | some lba => pure (some ⟨lba, 0⟩)

def growDirectory (vol : Option BpbGeometry) (g : BpbGeometry) (tail : Nat) : Io Nat := do
  let fresh ← allocateChain vol 1
  match ← (fillCluster g fresh Sector.zero g.sectorsPerCluster).attempt with
  | .error status => do
    freeChainQuietly vol fresh
    throw status
  | .ok () =>
    match ← (writeFatEntry vol fresh 0x0FFFFFFF).attempt with
    | .error status => do
      freeChainQuietly vol fresh
      throw status
    | .ok () =>
      match ← (writeFatEntry vol tail fresh).attempt with
      | .error status => do
        reclaimIfUnlinked vol g tail fresh
        throw status
      | .ok () => pure fresh

/-- The outcome of `create_directory_entry`: the slot used, or the status with the answer for
`definitely_unpublished`. -/
abbrev Created := Except (Status × Bool) DirectorySlot

def unlinkGrown (vol : Option BpbGeometry) (tail fresh : Nat) : Io Unit := do
  match ← (writeFatEntry vol tail 0x0FFFFFFF).attempt with
  | .error _ => pure ()
  | .ok () => freeChainQuietly vol fresh

/-- The publication step of `create_directory_entry`; `fresh` is 0 unless the directory grew. -/
def publishEntry (vol : Option BpbGeometry) (g : BpbGeometry) (vacant : DirectorySlot)
    (entry : Entry) (tail fresh : Nat) : Io Created := do
  match ← (putDirectoryEntry g vacant entry).attempt with
  | .ok (.ok ()) => pure (.ok vacant)
  | .error _ => pure (.error (.ioError, false))
  | .ok (.error false) => pure (.error (.ioError, false))
  | .ok (.error true) =>
    if fresh = 0 then pure (.error (.ioError, true))
    else do
      unlinkGrown vol tail fresh
      pure (.error (.ioError, true))

def markerFor (g : BpbGeometry) (free : FreeSearch) (tail : Nat) : Io (Option DirectorySlot) :=
  if free.freeIsEnd then nextMarker g free.freeSlot tail else pure none

def moveMarker (g : BpbGeometry) : Option DirectorySlot → Io Unit
  | some slot => clearEndMarker g slot
  | none => pure ()

def createAbsent (vol : Option BpbGeometry) (g : BpbGeometry) (published : Entry)
    (free : FreeSearch) (tail : Nat) : Io Created := do
  match ← (markerFor g free tail).attempt with
  | .error status => pure (.error (status, true))
  | .ok marker =>
    if free.freeSlot.lba = 0 ∨ (free.freeIsEnd ∧ marker.isNone) then do
      match ← (growDirectory vol g tail).attempt with
      | .error status => pure (.error (status, true))
      | .ok fresh =>
        match directoryLba g fresh 0 with
        | none => pure (.error (.corrupt, true))
        | some lba =>
          publishEntry vol g (if free.freeSlot.lba = 0 then ⟨lba, 0⟩ else free.freeSlot) published
            tail fresh
    else do
      match ← (moveMarker g marker).attempt with
      | .error status => pure (.error (status, true))
      | .ok () => publishEntry vol g free.freeSlot published tail 0

/-- `create_directory_entry`. The status is returned, with `definitely_unpublished`, rather
than thrown, since its callers act on both. -/
def createDirectoryEntry (vol : Option BpbGeometry) (directoryCluster : Nat) (name : CString)
    (entry : Entry) : Io Created :=
  match encodeComponent name with
  | none => pure (.error (.invalidName, true))
  | some encoded => do
    match ← (geometryForWrite vol).attempt with
    | .error status => pure (.error (status, true))
    | .ok g =>
      match ← (findInDirectory g directoryCluster encoded).attempt with
      | .error status => pure (.error (status, true))
      | .ok (.found _ _) => pure (.error (.alreadyExists, true))
      | .ok (.notFound free tail) => createAbsent vol g (setName entry encoded) free tail

end Linux95.Fat32.Write
