import Mathlib.Data.Nat.Bitwise
import Linux95.Storage.Device

/-! `filesystem/fat32_helpers.hpp`: little-endian fields, checked 32-bit arithmetic, 8.3 names,
the boot sector and the classification of FAT entries. Unsigned 32-bit values are naturals; a
sum, a product or a difference that the source computes in 32 bits is reduced modulo `2^32`. -/

namespace Linux95.Fat32

abbrev Bytes := Nat → UInt8

/-- The bytes of a C string; a pointer past the last one reads the terminating zero. -/
abbrev CString := List UInt8

/-- `p[offset] | p[offset + 1] << 8`; the two bytes occupy different bits. -/
def le16 (p : Bytes) (offset : Nat) : Nat :=
  (p offset).toNat + (p (offset + 1)).toNat * 2 ^ 8

def le32 (p : Bytes) (offset : Nat) : Nat :=
  (p offset).toNat + (p (offset + 1)).toNat * 2 ^ 8 + (p (offset + 2)).toNat * 2 ^ 16 +
    (p (offset + 3)).toNat * 2 ^ 24

def isPowerOfTwo (value : Nat) : Bool := value ≠ 0 && value &&& (value - 1) = 0

def fat28 (value : Nat) : Nat := value % 2 ^ 28

def isEoc (value : Nat) : Bool := 0x0FFFFFF8 ≤ fat28 value && fat28 value ≤ 0x0FFFFFFF

def checkedAddU32 (a b : Nat) : Option Nat :=
  if b > 0xFFFFFFFF - a then none else some ((a + b) % 2 ^ 32)

def checkedMulU32 (a b : Nat) : Option Nat :=
  if a ≠ 0 ∧ b > 0xFFFFFFFF / a then none else some ((a * b) % 2 ^ 32)

def subU32 (a b : Nat) : Nat := (a + (2 ^ 32 - b)) % 2 ^ 32

def clusterToLba (firstDataLba sectorsPerCluster cluster : Nat) : Option Nat :=
  if cluster < 2 ∨ sectorsPerCluster = 0 then none
  else (checkedMulU32 (subU32 cluster 2) sectorsPerCluster).bind (checkedAddU32 firstDataLba)

def asciiUpper (c : UInt8) : UInt8 := if 0x61 ≤ c ∧ c ≤ 0x7A then c - 0x20 else c

def shortNamePunctuation : List UInt8 :=
  [0x24, 0x25, 0x27, 0x2D, 0x5F, 0x40, 0x7E, 0x60, 0x21, 0x28, 0x29, 0x7B, 0x7D, 0x5E, 0x23, 0x26]

def validShortNameCharacter (c : UInt8) : Bool :=
  (0x41 ≤ c && c ≤ 0x5A) || (0x61 ≤ c && c ≤ 0x7A) || (0x30 ≤ c && c ≤ 0x39) ||
    shortNamePunctuation.contains c

def asciiIequals : CString → CString → Bool
  | [], b => b.headD 0 == 0
  | a, [] => a.headD 0 == 0
  | a :: as, b :: bs =>
    if a ≠ 0 ∧ b ≠ 0 then
      if asciiUpper a ≠ asciiUpper b then false else asciiIequals as bs
    else a == 0 && b == 0

abbrev ShortName := Fin 11 → UInt8

def ShortName.byte (name : ShortName) (i : Nat) : UInt8 := if h : i < 11 then name ⟨i, h⟩ else 0

/-- Bytes `i .. i + n` of the name up to the first space, a leading `0x05` read as `0xE5`. -/
def formatPart (raw : ShortName) : Nat → Nat → CString
  | _, 0 => []
  | i, n + 1 =>
    let value := if i = 0 ∧ raw.byte i = 0x05 then 0xE5 else raw.byte i
    if value = 0x20 then [] else value :: formatPart raw (i + 1) n

/-- `format_short_name`; at most 12 bytes are produced, so its capacity checks never fail. -/
def formatShortName (raw : ShortName) : Option CString :=
  let base := formatPart raw 0 8
  let hasExtension := raw.byte 8 ≠ 0x20 || raw.byte 9 ≠ 0x20 || raw.byte 10 ≠ 0x20
  if hasExtension then
    if base.length = 0 then none else some (base ++ 0x2E :: formatPart raw 8 3)
  else if base.length = 0 then none else some base

/-- The character loop of `valid_path_component`. -/
def validComponentLoop : CString → (baseLength extensionLength : Nat) → (seenDot : Bool) → Bool
  | [], baseLength, extensionLength, seenDot =>
    if baseLength = 0 then false else if seenDot ∧ extensionLength = 0 then false else true
  | c :: cs, baseLength, extensionLength, seenDot =>
    if c = 0 ∨ c = 0x2F ∨ c = 0x5C ∨ c = 0x20 ∨ c < 0x21 ∨ c > 0x7E then false
    else if c = 0x2E then
      if seenDot ∨ baseLength = 0 then false
      else validComponentLoop cs baseLength extensionLength true
    else if !validShortNameCharacter c then false
    else if !seenDot then
      if baseLength + 1 > 8 then false
      else validComponentLoop cs (baseLength + 1) extensionLength seenDot
    else if extensionLength + 1 > 3 then false
    else validComponentLoop cs baseLength (extensionLength + 1) seenDot

def validPathComponent (text : CString) : Bool :=
  if text.length = 0 then false
  else if text = [0x2E] ∨ text = [0x2E, 0x2E] then false
  else validComponentLoop text 0 0 false

/-- The copying loop of `encode_short_name`: a dot moves on to the extension. -/
def encodeLoop : CString → (position : Nat) → ShortName → ShortName
  | [], _, out => out
  | c :: cs, position, out =>
    if c = 0x2E then encodeLoop cs 8 out
    else encodeLoop cs (position + 1) (fun j => if j.val = position then asciiUpper c else out j)

def encodeShortName (text : CString) : Option ShortName :=
  if validPathComponent text then some (encodeLoop text 0 (fun _ => 0x20)) else none

structure BpbGeometry where
  bytesPerSector : Nat
  sectorsPerCluster : Nat
  reservedSectors : Nat
  fatCount : Nat
  totalSectors : Nat
  sectorsPerFat : Nat
  rootCluster : Nat
  fatBeginLba : Nat
  firstDataLba : Nat
  clusterCount : Nat
  mirroringEnabled : Bool
  activeFat : Nat
  deriving DecidableEq, Repr

def parseBpb (sector : Sector) (diskSectors : Nat) : Option BpbGeometry :=
  let p := sector.byte
  if diskSectors = 0 then none
  else if p 510 ≠ 0x55 ∨ p 511 ≠ 0xAA then none
  else
    let bytesPerSector := le16 p 11
    let sectorsPerCluster := (p 13).toNat
    let reservedSectors := le16 p 14
    let fatCount := (p 16).toNat
    let rootEntryCount := le16 p 17
    let totalSectors16 := le16 p 19
    let sectorsPerFat16 := le16 p 22
    let totalSectors32 := le32 p 32
    let sectorsPerFat := le32 p 36
    let extendedFlags := le16 p 40
    let mirroringEnabled : Bool := extendedFlags &&& 0x0080 = 0
    let activeFat := if mirroringEnabled then 0 else extendedFlags &&& 0x000F
    let filesystemVersion := le16 p 42
    let rootCluster := le32 p 44
    if bytesPerSector ≠ 512 then none
    else if !isPowerOfTwo sectorsPerCluster ∨ sectorsPerCluster > 128 then none
    else if reservedSectors = 0 ∨ fatCount = 0 then none
    else if !mirroringEnabled ∧ activeFat ≥ fatCount then none
    else if rootEntryCount ≠ 0 ∨ sectorsPerFat16 ≠ 0 ∨ sectorsPerFat = 0 then none
    else if filesystemVersion ≠ 0 ∨ rootCluster < 2 then none
    else
      let totalSectors := if totalSectors16 ≠ 0 then totalSectors16 else totalSectors32
      if totalSectors = 0 ∨ totalSectors > diskSectors then none
      else
        (checkedMulU32 fatCount sectorsPerFat).bind fun fatSectors =>
        (checkedAddU32 reservedSectors fatSectors).bind fun firstDataLba =>
        if firstDataLba ≥ totalSectors then none
        else
          let dataSectors := subU32 totalSectors firstDataLba
          let clusterCount := dataSectors / sectorsPerCluster
          if clusterCount < 65525 then none
          else
            (checkedAddU32 clusterCount 2).bind fun requiredFatEntries =>
            (checkedMulU32 sectorsPerFat 128).bind fun fatEntryCapacity =>
            if fatEntryCapacity < requiredFatEntries then none
            else
              (checkedAddU32 clusterCount 1).bind fun maxCluster =>
              if maxCluster ≥ 0x0FFFFFF0 then none
              else if rootCluster > maxCluster then none
              else some {
                bytesPerSector := bytesPerSector
                sectorsPerCluster := sectorsPerCluster
                reservedSectors := reservedSectors
                fatCount := fatCount
                totalSectors := totalSectors
                sectorsPerFat := sectorsPerFat
                rootCluster := rootCluster
                fatBeginLba := reservedSectors
                firstDataLba := firstDataLba
                clusterCount := clusterCount
                mirroringEnabled := mirroringEnabled
                activeFat := activeFat }

abbrev Entry := Fin 32 → UInt8

def Entry.byte (e : Entry) (i : Nat) : UInt8 := if h : i < 32 then e ⟨i, h⟩ else 0

def Entry.name (e : Entry) : ShortName := fun i => e.byte i.val

def Entry.zero : Entry := fun _ => 0

def Entry.setByte (e : Entry) (i : Nat) (v : UInt8) : Entry :=
  fun j => if j.val = i then v else e j

def Sector.slot (s : Sector) (offset : Nat) : Entry := fun i => s.byte (offset + i.val)

structure DirectoryEntry where
  name : CString
  isDirectory : Bool
  firstCluster : Nat
  size : Nat
  deriving DecidableEq, Repr

/-- `DirectoryEntryKind` together with the entry a `Normal` slot decodes to. -/
inductive Decoded where
  | normal (entry : DirectoryEntry)
  | skip
  | end
  deriving DecidableEq, Repr

def decodeDirectoryEntry (raw : Entry) : Decoded :=
  if raw.byte 0 = 0x00 then .end
  else if raw.byte 0 = 0xE5 then .skip
  else
    let attributes := raw.byte 11
    if attributes = 0x0F then .skip
    else if attributes &&& 0x08 ≠ 0 then .skip
    else if raw.byte 0 = 0x2E ∧ (raw.byte 1 = 0x20 ∨ raw.byte 1 = 0x2E) then .skip
    else match formatShortName raw.name with
      | none => .skip
      | some name => .normal {
          name := name
          isDirectory := attributes &&& 0x10 ≠ 0
          firstCluster := le16 raw.byte 20 * 2 ^ 16 + le16 raw.byte 26
          size := le32 raw.byte 28 }

/-- The loop of `valid_path`, with the characters of the current component so far. -/
def validPathLoop (component : CString) : CString → Bool
  | [] => if component.length = 0 then false else validPathComponent component
  | c :: cs =>
    if c = 0x2F ∨ c = 0 then
      if component.length = 0 then false
      else if !validPathComponent component then false
      else if c = 0 then true
      else validPathLoop [] cs
    else if component.length + 1 > 12 then false
    else validPathLoop (component ++ [c]) cs

def validPath (path : CString) : Bool :=
  if path.headD 0 = 0 then false else validPathLoop [] path

inductive FatEntryKind where
  | free
  | reserved
  | next
  | bad
  | endOfChain
  deriving DecidableEq, Repr

def classifyFatEntry (raw : Nat) : FatEntryKind :=
  let value := fat28 raw
  if value = 0 then .free
  else if value = 1 then .reserved
  else if 0x0FFFFFF0 ≤ value ∧ value ≤ 0x0FFFFFF6 then .reserved
  else if value = 0x0FFFFFF7 then .bad
  else if value ≥ 0x0FFFFFF8 then .endOfChain
  else .next

def fatEntryLocation (cluster fatBeginLba : Nat) : Option (Nat × Nat) :=
  (checkedMulU32 cluster 4).bind fun offset =>
  (checkedAddU32 fatBeginLba (offset / 512)).bind fun sector => some (sector, offset % 512)

end Linux95.Fat32
