import Linux95.Fat32.Allocation
import Linux95.Fat32.Contents
import Linux95.Fat32.DirectorySlots
import Linux95.Storage.SingleFault

/-! What a sound volume is: every object that can be reached from the root directory has a chain of its
own, of the length that its size asks for, and no cluster is in use without an owner. -/

namespace Linux95.Fat32
open Base Storage Write

/-- A live entry that stands for an object; `.` and `..` do not. -/
def ordinary (e : Entry) : Bool := liveShortEntry e && !isDotEntry e

def objectSlots (g : BpbGeometry) (d : Disk) (c : Nat) : List DirectorySlot :=
  (usedSlots g d c).filter fun slot => ordinary (entryAt d slot)

inductive Directory (g : BpbGeometry) (d : Disk) : Nat → Prop
  | root : Directory g d g.rootCluster
  | child {c : Nat} {slot : DirectorySlot} (parent : Directory g d c) (mem : slot ∈ objectSlots g d c)
      (directory : isDirectoryEntry (entryAt d slot) = true) : Directory g d (firstCluster (entryAt d slot))

inductive Object (g : BpbGeometry) (d : Disk) : Option DirectorySlot → Nat → Prop
  | root : Object g d none g.rootCluster
  | entry {c : Nat} {slot : DirectorySlot} (parent : Directory g d c) (mem : slot ∈ objectSlots g d c) :
      Object g d (some slot) (firstCluster (entryAt d slot))

def fileClusters (g : BpbGeometry) (size : Nat) : Nat := (size + g.clusterBytes - 1) / g.clusterBytes

structure WellFormed (g : BpbGeometry) (d : Disk) : Prop where
  agree : ∀ c, validCluster g c = true → Agree g d c
  directories : ∀ c, Directory g d c → ∃ l, Chain g d c l
  files : ∀ c slot, Directory g d c → slot ∈ objectSlots g d c → isDirectoryEntry (entryAt d slot) = false →
    (firstCluster (entryAt d slot) = 0 ↔ le32 (entryAt d slot).byte 28 = 0) ∧
      (firstCluster (entryAt d slot) ≠ 0 → ∃ l, Chain g d (firstCluster (entryAt d slot)) l ∧
        l.length = fileClusters g (le32 (entryAt d slot).byte 28))
  disjoint : ∀ o o' c c' l l', Object g d o c → Object g d o' c' → o ≠ o' → Chain g d c l →
    Chain g d c' l' → List.Disjoint l l'
  owned : ∀ c, validCluster g c = true → isFree g d c = false →
    classifyFatEntry (fat28 (fatEntry g d 0 c)) ≠ .bad → ∃ o first l, Object g d o first ∧ Chain g d first l ∧ c ∈ l
  encoded : ∀ c slot, Directory g d c → slot ∈ objectSlots g d c →
    (∃ text, encodeShortName text = some (entryAt d slot).name) ∧
      storedCluster (entryAt d slot) = firstCluster (entryAt d slot)
  distinct : ∀ c slot slot', Directory g d c → slot ∈ objectSlots g d c → slot' ∈ objectSlots g d c →
    (entryAt d slot).name = (entryAt d slot').name → slot = slot'

section Objects
variable {g : BpbGeometry} {d : Disk} {c c' : Nat} {o : Option DirectorySlot} {slot : DirectorySlot}

theorem mem_objectSlots : slot ∈ objectSlots g d c ↔
    slot ∈ usedSlots g d c ∧ liveShortEntry (entryAt d slot) = true ∧ isDotEntry (entryAt d slot) = false := by
  unfold objectSlots ordinary
  rw [List.mem_filter, Bool.and_eq_true, Bool.not_eq_true']

theorem Object.unique (h : Object g d o c) (h' : Object g d o c') : c = c' := by
  cases h with
  | root =>
    cases h'
    rfl
  | entry =>
    cases h'
    rfl

theorem Directory.object (h : Directory g d c) : ∃ o, Object g d o c := by
  cases h with
  | root => exact ⟨none, .root⟩
  | child parent mem _ => exact ⟨some _, .entry parent mem⟩

theorem WellFormed.apart (hd : WellFormed g d) (h : Directory g d c) (h' : Directory g d c') (hne : c ≠ c')
    {l l' : List Nat} (hl : Chain g d c l) (hl' : Chain g d c' l') : List.Disjoint l l' := by
  obtain ⟨o, ho⟩ := h.object
  obtain ⟨o', ho'⟩ := h'.object
  refine hd.disjoint o o' c c' l l' ho ho' ?_ hl hl'
  rintro rfl
  exact hne (ho.unique ho')

end Objects

section Hits
variable {d : Disk} {name : ShortName} {text : CString} {slot : DirectorySlot}

theorem encoded_first (henc : encodeShortName text = some name) : name 0 ≠ 0x2E :=
  ((encodeShortName_plain henc).1.2 0).2

theorem hit_ordinary (henc : encodeShortName text = some name) (hhit : isHit d name slot = true) :
    liveShortEntry (entryAt d slot) = true ∧ isDotEntry (entryAt d slot) = false := by
  -- no component of a path is `.` or `..`
  obtain ⟨hlive, hmatch⟩ := Bool.and_eq_true_iff.mp hhit
  refine ⟨hlive, ?_⟩
  have hfirst : (entryAt d slot).byte 0 ≠ 0x2E := by
    intro hdot
    have hbyte := (nameMatches_iff.mp hmatch) 0
    rw [show (entryAt d slot).name 0 = 0x2E from hdot] at hbyte
    exact encoded_first henc hbyte.symm
  unfold isDotEntry
  simp [hfirst]

theorem nameMatches_encoded {e : Entry} {text' : CString} (henc : encodeShortName text' = some e.name) :
    nameMatches e name = true ↔ e.name = name := by
  rw [nameMatches_iff]
  have hupper := (encodeShortName_plain henc).2.1
  constructor
  · intro h
    funext i
    rw [← hupper i, h i]
  · rintro rfl
    exact hupper

end Hits

def lookup (g : BpbGeometry) (d : Disk) (c : Nat) (name : ShortName) : Option DirectorySlot :=
  (usedSlots g d c).find? (isHit d name)

section Lookup
variable {g : BpbGeometry} {n : Nat} (hg : g.Sound n) {d : Disk} {c : Nat} {l : List Nat} {name : ShortName}
  {slot : DirectorySlot} {e : Entry}

theorem lookup_mem (h : lookup g d c name = some slot) :
    slot ∈ usedSlots g d c ∧ isHit d name slot = true :=
  ⟨List.mem_of_find?_eq_some h, List.find?_some h⟩

theorem lookup_object {text : CString} (henc : encodeShortName text = some name)
    (h : lookup g d c name = some slot) : slot ∈ objectSlots g d c := by
  obtain ⟨hmem, hhit⟩ := lookup_mem h
  exact mem_objectSlots.mpr ⟨hmem, hit_ordinary henc hhit⟩

include hg

theorem value_lookup (hchain : Chain g d c l) (name : ShortName) :
    (∃ slot, lookup g d c name = some slot ∧
      value (findInDirectory g c name) d = .ok (.found slot (entryAt d slot))) ∨
    (lookup g d c name = none ∧
      ∃ free tail, value (findInDirectory g c name) d = .ok (.notFound free tail) ∧ Vacancy g d l free tail) := by
  unfold lookup
  rw [usedSlots_chain hchain]
  exact findInDirectory_cases hg hchain name

theorem value_found (hchain : Chain g d c l) (h : lookup g d c name = some slot) :
    value (findInDirectory g c name) d = .ok (.found slot (entryAt d slot)) := by
  rcases value_lookup hg hchain name with ⟨slot', hslot', hvalue⟩ | ⟨hnone, -⟩
  · rw [h] at hslot'
    rw [hvalue, Option.some.inj hslot']
  · rw [h] at hnone
    cases hnone

theorem value_missing (hchain : Chain g d c l) (h : lookup g d c name = none) :
    ∃ free tail, value (findInDirectory g c name) d = .ok (.notFound free tail) ∧ Vacancy g d l free tail := by
  rcases value_lookup hg hchain name with ⟨slot', hslot', -⟩ | ⟨-, hvalue⟩
  · rw [h] at hslot'
    cases hslot'
  · exact hvalue

theorem lookup_of_found (hchain : Chain g d c l)
    (h : value (findInDirectory g c name) d = .ok (.found slot e)) :
    lookup g d c name = some slot ∧ e = entryAt d slot := by
  rcases value_lookup hg hchain name with ⟨slot', hslot', hvalue⟩ | ⟨-, free, tail, hvalue, -⟩
  · rw [h] at hvalue
    obtain ⟨rfl, rfl⟩ := Search.found.inj (Except.ok.inj hvalue)
    exact ⟨hslot', rfl⟩
  · rw [h] at hvalue
    cases hvalue

theorem lookup_of_missing (hchain : Chain g d c l) {free : FreeSearch} {tail : Nat}
    (h : value (findInDirectory g c name) d = .ok (.notFound free tail)) : lookup g d c name = none := by
  rcases value_lookup hg hchain name with ⟨slot', -, hvalue⟩ | ⟨hnone, -⟩
  · rw [h] at hvalue
    cases hvalue
  · exact hnone

end Lookup

/-- The root directory holds a file `A` in cluster 4 and a directory `D` in cluster 3. -/
def treeDisk (lba : Nat) : Sector :=
  if lba = 32 ∨ lba = 544 then fun j =>
    [0xF8, 0xFF, 0xFF, 0x0F, 0xFF, 0xFF, 0xFF, 0x0F, 0xFF, 0xFF, 0xFF, 0x0F, 0xFF, 0xFF, 0xFF, 0x0F,
      0xFF, 0xFF, 0xFF, 0x0F].getD j.val 0
  else if lba = 1056 then fun j =>
    [0x41, 0x20, 0x20, 0x20, 0x20, 0x20, 0x20, 0x20, 0x20, 0x20, 0x20, 0x20, 0, 0, 0, 0, 0, 0, 0, 0, 0, 0,
      0, 0, 0, 0, 4, 0, 5, 0, 0, 0,
      0x44, 0x20, 0x20, 0x20, 0x20, 0x20, 0x20, 0x20, 0x20, 0x20, 0x20, 0x10, 0, 0, 0, 0, 0, 0, 0, 0, 0, 0,
      0, 0, 0, 0, 3, 0, 0, 0, 0, 0].getD j.val 0
  else if lba = 1057 then fun j =>
    [0x2E, 0x20, 0x20, 0x20, 0x20, 0x20, 0x20, 0x20, 0x20, 0x20, 0x20, 0x10, 0, 0, 0, 0, 0, 0, 0, 0, 0, 0,
      0, 0, 0, 0, 3, 0, 0, 0, 0, 0,
      0x2E, 0x2E, 0x20, 0x20, 0x20, 0x20, 0x20, 0x20, 0x20, 0x20, 0x20, 0x10, 0, 0, 0, 0, 0, 0, 0, 0, 0, 0,
      0, 0, 0, 0, 0, 0, 0, 0, 0, 0].getD j.val 0
  else if lba = 1058 then fun j => [1, 2, 3, 4, 5].getD j.val 0
  else Sector.zero

section TreeDisk

theorem treeDisk_chain {c : Nat} (hc : c ∈ [2, 3, 4]) : Chain smallGeometry treeDisk c [c] := by
  have hlinks : ∀ c ∈ [2, 3, 4], link smallGeometry treeDisk c = some none := by decide +kernel
  exact .last (hlinks c hc)

theorem treeDisk_objects :
    objectSlots smallGeometry treeDisk 2 = [⟨1056, 0⟩, ⟨1056, 32⟩] ∧ objectSlots smallGeometry treeDisk 3 = [] := by
  unfold objectSlots
  rw [usedSlots_chain (treeDisk_chain (by decide)), usedSlots_chain (treeDisk_chain (by decide))]
  constructor <;> decide +kernel

theorem treeDisk_slots {c : Nat} {slot : DirectorySlot} (hc : c = 2 ∨ c = 3)
    (hslot : slot ∈ objectSlots smallGeometry treeDisk c) : slot = ⟨1056, 0⟩ ∨ slot = ⟨1056, 32⟩ := by
  obtain ⟨hroot, hchild⟩ := treeDisk_objects
  rcases hc with rfl | rfl
  · rw [hroot] at hslot
    simpa using hslot
  · rw [hchild] at hslot
    cases hslot

theorem treeDisk_file : isDirectoryEntry (entryAt treeDisk ⟨1056, 0⟩) = false ∧
    firstCluster (entryAt treeDisk ⟨1056, 0⟩) = 4 ∧ firstCluster (entryAt treeDisk ⟨1056, 32⟩) = 3 := by
  decide +kernel

theorem treeDisk_directory {c : Nat} (h : Directory smallGeometry treeDisk c) : c = 2 ∨ c = 3 := by
  induction h with
  | root => exact Or.inl rfl
  | child _ mem directory ih =>
    rcases treeDisk_slots ih mem with rfl | rfl
    · rw [treeDisk_file.1] at directory
      cases directory
    · exact Or.inr treeDisk_file.2.2

theorem treeDisk_object {o : Option DirectorySlot} {c : Nat} (h : Object smallGeometry treeDisk o c) :
    (o = none ∧ c = 2) ∨ (o = some ⟨1056, 0⟩ ∧ c = 4) ∨ (o = some ⟨1056, 32⟩ ∧ c = 3) := by
  cases h with
  | root => exact Or.inl ⟨rfl, rfl⟩
  | entry parent mem =>
    rcases treeDisk_slots (treeDisk_directory parent) mem with rfl | rfl
    · exact Or.inr (Or.inl ⟨rfl, treeDisk_file.2.1⟩)
    · exact Or.inr (Or.inr ⟨rfl, treeDisk_file.2.2⟩)

theorem treeDisk_fat (k c : Nat) (hk : k < 2) (hc : validCluster smallGeometry c = true) :
    fatEntry smallGeometry treeDisk k c = if c < 128 then le32 (treeDisk 32).byte (c * 4) else 0 := by
  have hv := validCluster_iff.mp hc
  have hcount : smallGeometry.clusterCount = 65530 := rfl
  have hlba : smallGeometry.fatLba k c = 32 + k * 512 + c / 128 := rfl
  have hsame : treeDisk 544 = treeDisk 32 := rfl
  unfold fatEntry
  rw [hlba]
  split_ifs with hlow
  · rw [Nat.div_eq_of_lt hlow, Nat.mod_eq_of_lt hlow]
    obtain rfl | rfl : k = 0 ∨ k = 1 := by omega
    · rfl
    · exact congrArg (fun s => le32 (Sector.byte s) (c * 4)) hsame
  · have hzero : treeDisk (32 + k * 512 + c / 128) = Sector.zero := by
      unfold treeDisk
      rw [if_neg (by omega), if_neg (by omega), if_neg (by omega), if_neg (by omega)]
    rw [hzero]
    simp [le32]

theorem treeDisk_used {c : Nat} (hc : validCluster smallGeometry c = true)
    (hused : isFree smallGeometry treeDisk c = false) : c ∈ [2, 3, 4] := by
  have hv := validCluster_iff.mp hc
  have hlow : ∀ c < 128, 5 ≤ c → le32 (treeDisk 32).byte (c * 4) = 0 := by decide +kernel
  unfold isFree at hused
  rw [treeDisk_fat 0 c (by decide) hc] at hused
  by_contra hnot
  have hc5 : 5 ≤ c := by
    by_contra hlt
    obtain rfl | rfl | rfl : c = 2 ∨ c = 3 ∨ c = 4 := by omega
    all_goals exact hnot (by decide)
  split_ifs at hused with h
  · rw [hlow c h hc5] at hused
    cases hused
  · cases hused

theorem wellFormed_treeDisk : WellFormed smallGeometry treeDisk where
  agree := fun c hc k hk => by rw [treeDisk_fat k c hk hc, treeDisk_fat 0 c (by decide) hc]
  directories := fun c hc => by
    rcases treeDisk_directory hc with rfl | rfl
    · exact ⟨[2], treeDisk_chain (by decide)⟩
    · exact ⟨[3], treeDisk_chain (by decide)⟩
  files := fun c slot hc hslot hfile => by
    rcases treeDisk_slots (treeDisk_directory hc) hslot with rfl | rfl
    · rw [treeDisk_file.2.1]
      exact ⟨by decide +kernel, fun _ => ⟨[4], treeDisk_chain (by decide), by decide +kernel⟩⟩
    · exact absurd hfile (by decide +kernel)
  disjoint := fun o o' c c' l l' ho ho' hne hl hl' => by
    have hself : ∀ c l, c ∈ [2, 3, 4] → Chain smallGeometry treeDisk c l → l = [c] := fun c l hc hl =>
      hl.unique (treeDisk_chain hc)
    have hcases := treeDisk_object ho
    have hcases' := treeDisk_object ho'
    have hmem : c ∈ [2, 3, 4] ∧ c' ∈ [2, 3, 4] ∧ c ≠ c' := by grind
    rw [hself c l hmem.1 hl, hself c' l' hmem.2.1 hl', List.singleton_disjoint, List.mem_singleton]
    exact hmem.2.2
  owned := fun c hc hused _ => by
    have hmem := treeDisk_used hc hused
    have hroot : Directory smallGeometry treeDisk 2 := .root
    obtain rfl | rfl | rfl : c = 2 ∨ c = 3 ∨ c = 4 := by simpa using hmem
    · exact ⟨none, 2, [2], .root, treeDisk_chain hmem, List.mem_cons_self⟩
    · have hobject := Object.entry hroot (show (⟨1056, 32⟩ : DirectorySlot) ∈ _ by rw [treeDisk_objects.1]; decide)
      rw [treeDisk_file.2.2] at hobject
      exact ⟨_, 3, [3], hobject, treeDisk_chain hmem, List.mem_cons_self⟩
    · have hobject := Object.entry hroot (show (⟨1056, 0⟩ : DirectorySlot) ∈ _ by rw [treeDisk_objects.1]; decide)
      rw [treeDisk_file.2.1] at hobject
      exact ⟨_, 4, [4], hobject, treeDisk_chain hmem, List.mem_cons_self⟩
  encoded := fun c slot hc hslot => by
    rcases treeDisk_slots (treeDisk_directory hc) hslot with rfl | rfl
    · exact ⟨⟨[0x41], by decide +kernel⟩, by decide +kernel⟩
    · exact ⟨⟨[0x44], by decide +kernel⟩, by decide +kernel⟩
  distinct := fun c slot slot' hc hslot hslot' hname => by
    rcases treeDisk_slots (treeDisk_directory hc) hslot with rfl | rfl <;>
      rcases treeDisk_slots (treeDisk_directory hc) hslot' with rfl | rfl
    · rfl
    · exact absurd (congrFun hname 0) (by decide +kernel)
    · exact absurd (congrFun hname 0) (by decide +kernel)
    · rfl

def treeDevice (n : Nat) : Device := ⟨treeDisk, 66586, true, fun k => if k = n then .refused else .none, []⟩

theorem treeDevice_once (n : Nat) : (treeDevice n).Once smallGeometry.totalSectors := by
  have honly : ∀ k, (treeDevice n).faults k ≠ .none → k = n := by
    intro k hk
    by_contra hne
    exact hk (if_neg hne)
  refine ⟨rfl, le_refl 66586, fun k => ?_, fun m k hm hk => (honly m hm).trans (honly k hk).symm⟩
  unfold treeDevice
  dsimp only
  split_ifs <;> decide

end TreeDisk

end Linux95.Fat32
