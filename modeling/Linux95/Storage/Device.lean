import Mathlib.Data.Fintype.Pi
import Mathlib.Logic.Function.Basic
import Linux95.Base.Wp

/-! The Test disk as `storage/disk.cpp` offers it: one sector read or written per call,
any call may be refused, and a refused write may still have reached the medium. -/

namespace Linux95
open Base

inductive Status where
  | ok
  | notMounted
  | ioError
  | invalidFilesystem
  | notFound
  | notDirectory
  | isDirectory
  | corrupt
  | unsupported
  | invalidDescriptor
  | invalidHandle
  | tooManyOpenFiles
  | tooManyOpenDirectories
  | alreadyExists
  | invalidName
  | noSpace
  | directoryNotEmpty
  | readOnly
  deriving DecidableEq, Repr

abbrev Sector := Fin 512 → UInt8

/-- The byte at offset `i`; a C buffer is never read past its end, so the default is unused. -/
def Sector.byte (s : Sector) (i : Nat) : UInt8 := if h : i < 512 then s ⟨i, h⟩ else 0

def Sector.setByte (s : Sector) (i : Nat) (v : UInt8) : Sector :=
  fun j => if j.val = i then v else s j

def Sector.zero : Sector := fun _ => 0

theorem Sector.ext_byte {s t : Sector} (h : ∀ i, i < 512 → s.byte i = t.byte i) : s = t := by
  funext j
  have hj := h j.val j.isLt
  simpa only [Sector.byte, j.isLt, dif_pos, Fin.eta] using hj

theorem Sector.byte_setByte (s : Sector) (i k : Nat) (v : UInt8) (hk : k < 512) :
    (s.setByte i v).byte k = if k = i then v else s.byte k := by
  simp only [Sector.byte, Sector.setByte, hk, dif_pos]

@[simp] theorem Sector.byte_zero (i : Nat) : Sector.zero.byte i = 0 := by
  unfold Sector.byte Sector.zero
  split <;> rfl

namespace Storage

/-- How the drive answers one request. A write that reports failure may have been carried
out (`applied`) or not (`refused`). -/
inductive Fault where
  | none
  | refused
  | applied
  deriving DecidableEq, Repr

inductive Region where
  | fat
  | data
  deriving DecidableEq, Repr

/-- `written` is a trace of the writes that reached the drive, newest first; no modelled
function reads it. -/
structure Device where
  sectors : Nat → Sector
  /-- `lba28_sector_count` of the drive. -/
  sectorCount : Nat
  /-- `present && ata_device`. -/
  present : Bool
  /-- The answers to the coming requests. -/
  faults : Nat → Fault
  written : List (Region × Nat)

def Device.outOfRange (dev : Device) (lba : Nat) : Bool :=
  dev.sectorCount ≠ 0 && decide (dev.sectorCount ≤ lba)

def Device.tick (dev : Device) : Device := { dev with faults := fun n => dev.faults (n + 1) }

def Device.put (dev : Device) (lba : Nat) (s : Sector) : Device :=
  { dev with sectors := Function.update dev.sectors lba s }

def Device.Reliable (dev : Device) : Prop := dev.present = true ∧ ∀ n, dev.faults n = .none

abbrev Io (α : Type) := Exec Device Status α

/-- `storage::read_sector`; every caller answers `false` with `IoError`. -/
def readSector (lba : Nat) : Io Sector :=
  ExceptT.mk fun dev =>
    if !dev.present || dev.outOfRange lba then (.error .ioError, dev)
    else if dev.faults 0 = .none then (.ok (dev.sectors lba), dev.tick)
    else (.error .ioError, dev.tick)

def writeSector (region : Region) (lba : Nat) (s : Sector) : Io Unit :=
  ExceptT.mk fun dev =>
    if !dev.present || dev.outOfRange lba then (.error .ioError, dev)
    else
      let logged := { dev.tick with written := (region, lba) :: dev.written }
      match dev.faults 0 with
      | .none => (.ok (), logged.put lba s)
      | .applied => (.error .ioError, logged.put lba s)
      | .refused => (.error .ioError, logged)

structure Same (dev dev' : Device) : Prop where
  sectorCount : dev'.sectorCount = dev.sectorCount
  present : dev'.present = dev.present
  reliable : dev.Reliable → dev'.Reliable

theorem Same.refl (dev : Device) : Same dev dev := ⟨rfl, rfl, id⟩

theorem Same.trans {a b c : Device} (h : Same a b) (h' : Same b c) : Same a c :=
  ⟨h'.sectorCount.trans h.sectorCount, h'.present.trans h.present,
    fun r => h'.reliable (h.reliable r)⟩

theorem Same.tick (dev : Device) : Same dev dev.tick :=
  ⟨rfl, rfl, fun r => ⟨r.1, fun n => r.2 (n + 1)⟩⟩

theorem readSector_wp (dev : Device) (lba : Nat) :
    wp (readSector lba)
      (fun s dev' => s = dev.sectors lba ∧ dev'.sectors = dev.sectors ∧
        dev'.written = dev.written ∧ Same dev dev')
      (fun e dev' => e = .ioError ∧ dev'.sectors = dev.sectors ∧ dev'.written = dev.written ∧
        Same dev dev' ∧ ¬(dev.Reliable ∧ lba < dev.sectorCount)) dev := by
  unfold wp readSector Exec.exec
  simp only [ExceptT.run_mk, StateT.run]
  by_cases hr : (!dev.present || dev.outOfRange lba) = true
  · rw [if_pos hr]
    refine ⟨rfl, rfl, rfl, Same.refl dev, ?_⟩
    rintro ⟨hrel, hlt⟩
    simp only [hrel.1, Device.outOfRange, Bool.not_true, Bool.false_or, Bool.and_eq_true,
      decide_eq_true_eq] at hr
    omega
  · rw [if_neg hr]
    by_cases hf : dev.faults 0 = .none
    · rw [if_pos hf]
      exact ⟨rfl, rfl, rfl, Same.tick dev⟩
    · rw [if_neg hf]
      exact ⟨rfl, rfl, rfl, Same.tick dev, fun h => hf (h.1.2 0)⟩

theorem writeSector_wp (dev : Device) (region : Region) (lba : Nat) (s : Sector) :
    wp (writeSector region lba s)
      (fun _ dev' => dev'.sectors = Function.update dev.sectors lba s ∧
        dev'.written = (region, lba) :: dev.written ∧ Same dev dev')
      (fun e dev' => e = .ioError ∧
        (dev'.sectors = dev.sectors ∨ dev'.sectors = Function.update dev.sectors lba s) ∧
        (dev'.written = dev.written ∨ dev'.written = (region, lba) :: dev.written) ∧
        Same dev dev' ∧ ¬(dev.Reliable ∧ lba < dev.sectorCount)) dev := by
  unfold wp writeSector Exec.exec
  simp only [ExceptT.run_mk, StateT.run]
  by_cases hr : (!dev.present || dev.outOfRange lba) = true
  · rw [if_pos hr]
    refine ⟨rfl, Or.inl rfl, Or.inl rfl, Same.refl dev, ?_⟩
    rintro ⟨hrel, hlt⟩
    simp only [hrel.1, Device.outOfRange, Bool.not_true, Bool.false_or, Bool.and_eq_true,
      decide_eq_true_eq] at hr
    omega
  · rw [if_neg hr]
    have hsame : ∀ t w, Same dev { dev.tick with sectors := t, written := w } := fun t w =>
      ⟨rfl, rfl, fun r => ⟨r.1, fun n => r.2 (n + 1)⟩⟩
    cases hf : dev.faults 0 with
    | none => exact ⟨rfl, rfl, hsame _ _⟩
    | refused =>
      exact ⟨rfl, Or.inl rfl, Or.inr rfl, hsame _ _, fun h => by simp [h.1.2 0] at hf⟩
    | applied =>
      exact ⟨rfl, Or.inr rfl, Or.inr rfl, hsame _ _, fun h => by simp [h.1.2 0] at hf⟩

end Storage
end Linux95
