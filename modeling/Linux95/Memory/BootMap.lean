import Linux95.Memory.Physical

/-! The memory map that the boot loader hands over: `boot_info.hpp`, and `maximum_usable_physical_address` of
`memory/memory.cpp`. -/

namespace Linux95.Memory

def hugePageSize : Nat := 2 * 1024 * 1024

def bootstrapHhdmLimit : Nat := 64 * 1024 * 1024 * 1024

structure E820Entry where
  base : Word
  length : Word
  type : BitVec 32

def bootInfoMagic : BitVec 32 := 0x4C393542#32
def maxE820Entries : Nat := 128

structure BootInfo where
  magic : BitVec 32
  e820Count : BitVec 32
  e820Address : Word
  e820At : Nat → E820Entry

namespace BootInfo

def entries (boot : BootInfo) : List E820Entry := (List.range boot.e820Count.toNat).map boot.e820At

def valid (boot : BootInfo) : Bool :=
  boot.magic = bootInfoMagic && boot.e820Count.toNat > 0 && boot.e820Count.toNat ≤ maxE820Entries &&
    boot.e820Address ≠ 0#64

end BootInfo

def saturatingAdd (a b : Nat) : Nat := if uint64Max - a < b then uint64Max else a + b

def E820Entry.usable (entry : E820Entry) : Bool := entry.type = 1#32 && entry.length ≠ 0#64

def E820Entry.limit (entry : E820Entry) : Nat := entry.base.toNat + entry.length.toNat

/-- The body of the loop of `maximum_usable_physical_address`. -/
def raiseMaximum (maximum : Nat) (entry : E820Entry) : Nat :=
  if !entry.usable then maximum
  else
    let last := saturatingAdd entry.base.toNat entry.length.toNat
    if last > maximum then last else maximum

def maximumUsablePhysicalAddress (boot : BootInfo) : Nat :=
  if boot.e820Count.toNat = 0 ∨ boot.e820Count.toNat > maxE820Entries ∨ boot.e820Address = 0#64 then 0
  else boot.entries.foldl raiseMaximum 0

section Maximum
variable {boot : BootInfo}

theorem saturatingAdd_of_lt {a b : Nat} (h : saturatingAdd a b < uint64Max) : saturatingAdd a b = a + b := by
  unfold saturatingAdd at h ⊢
  split at h
  · omega
  · rw [if_neg ‹_›]

theorem raiseMaximum_spec (maximum : Nat) (entry : E820Entry) : maximum ≤ raiseMaximum maximum entry ∧
    (entry.usable = true → saturatingAdd entry.base.toNat entry.length.toNat ≤ raiseMaximum maximum entry) := by
  unfold raiseMaximum
  split
  · rename_i hnot
    refine ⟨Nat.le_refl _, fun husable => ?_⟩
    rw [husable] at hnot
    cases hnot
  · dsimp only
    split
    · exact ⟨Nat.le_of_lt ‹_›, fun _ => Nat.le_refl _⟩
    · exact ⟨Nat.le_refl _, fun _ => Nat.not_lt.mp ‹_›⟩

theorem foldl_raiseMaximum (entries : List E820Entry) (start : Nat) : start ≤ entries.foldl raiseMaximum start ∧
    ∀ entry ∈ entries, entry.usable = true →
      saturatingAdd entry.base.toNat entry.length.toNat ≤ entries.foldl raiseMaximum start := by
  induction entries generalizing start with
  | nil => exact ⟨Nat.le_refl _, fun entry hmem => absurd hmem List.not_mem_nil⟩
  | cons first rest ih =>
    rw [List.foldl_cons]
    obtain ⟨hstart, hrest⟩ := ih (raiseMaximum start first)
    obtain ⟨hle, hfirst⟩ := raiseMaximum_spec start first
    refine ⟨Nat.le_trans hle hstart, fun entry hmem husable => ?_⟩
    rcases List.mem_cons.mp hmem with rfl | hmem
    · exact Nat.le_trans (hfirst husable) hstart
    · exact hrest entry hmem husable

theorem foldl_raiseMaximum_le {entries : List E820Entry} {start limit : Nat} (hstart : start ≤ limit)
    (hentries : ∀ entry ∈ entries, entry.usable = true → saturatingAdd entry.base.toNat entry.length.toNat ≤ limit) :
    entries.foldl raiseMaximum start ≤ limit := by
  induction entries generalizing start with
  | nil => exact hstart
  | cons first rest ih =>
    rw [List.foldl_cons]
    refine ih ?_ fun entry hmem => hentries entry (List.mem_cons_of_mem _ hmem)
    have hfirst := hentries first List.mem_cons_self
    unfold raiseMaximum
    split
    · exact hstart
    · rename_i husable
      dsimp only
      split
      · exact hfirst (by simpa using husable)
      · exact hstart

theorem saturatingAdd_le (a b : Nat) : saturatingAdd a b ≤ a + b := by
  unfold saturatingAdd
  split <;> omega

theorem saturatingAdd_pos (a : Nat) {b : Nat} (hb : b ≠ 0) : 0 < saturatingAdd a b := by
  unfold saturatingAdd
  split
  · decide
  · omega

theorem maximum_le {limit : Nat} (hvalid : boot.valid = true) (hsome : ∃ entry ∈ boot.entries, entry.usable = true)
    (hlimit : ∀ entry ∈ boot.entries, entry.usable = true → entry.limit ≤ limit) :
    maximumUsablePhysicalAddress boot ≠ 0 ∧ maximumUsablePhysicalAddress boot ≤ limit := by
  unfold BootInfo.valid at hvalid
  simp only [Bool.and_eq_true, decide_eq_true_eq, ne_eq] at hvalid
  obtain ⟨⟨⟨-, hcount⟩, hmax⟩, haddress⟩ := hvalid
  unfold maximumUsablePhysicalAddress
  rw [if_neg (by
    rintro (hzero | hmany | hnull)
    · omega
    · omega
    · exact haddress hnull)]
  obtain ⟨entry, hmem, husable⟩ := hsome
  constructor
  · have hle := (foldl_raiseMaximum boot.entries 0).2 entry hmem husable
    have hlength : entry.length.toNat ≠ 0 := by
      unfold E820Entry.usable at husable
      simp only [Bool.and_eq_true, decide_eq_true_eq, ne_eq] at husable
      exact fun hzero => husable.2 (BitVec.eq_of_toNat_eq hzero)
    exact Nat.ne_of_gt (Nat.lt_of_lt_of_le (saturatingAdd_pos _ hlength) hle)
  · exact foldl_raiseMaximum_le (Nat.zero_le _) fun entry hmem husable =>
      (saturatingAdd_le _ _).trans (hlimit entry hmem husable)

theorem usable_end_le (hmaximum : maximumUsablePhysicalAddress boot ≠ 0)
    (hlimit : maximumUsablePhysicalAddress boot < uint64Max) {entry : E820Entry} (hmem : entry ∈ boot.entries)
    (husable : entry.usable = true) : entry.limit ≤ maximumUsablePhysicalAddress boot := by
  -- no usable memory lies beyond a maximum that is not saturated
  unfold maximumUsablePhysicalAddress at *
  split at hmaximum
  · exact absurd rfl hmaximum
  rename_i hcount
  rw [if_neg hcount] at hlimit ⊢
  have hle := (foldl_raiseMaximum boot.entries 0).2 entry hmem husable
  rw [saturatingAdd_of_lt (Nat.lt_of_le_of_lt hle hlimit)] at hle
  exact hle

end Maximum

end Linux95.Memory
