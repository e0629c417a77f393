import Linux95.Fat32.EntryCalls

/-! Runs of operations on a drive that answers every request: the volume stays sound, and every call does to
the tree of names what it is for. -/

namespace Linux95.Fat32
open Base Storage Write

section Runs
variable {g : BpbGeometry} {n : Nat} (hg : g.Sound n) (hm : g.mirroringEnabled = true) {d : Disk}
include hg hm

theorem Owned.answers (hd : Owned g d []) (op : Op) : Answers g d op := by
  cases op with
  | touch path => exact hd.touch hg hm path
  | writeFile path data size => exact hd.writeFile hg hm path data size
  | mkdir path => exact hd.mkdir hg hm path
  | remove path => exact hd.remove hg hm path
  | copyFile source destination => exact hd.copyFile hg hm source destination
  | move source destination => exact hd.move hg hm source destination

theorem step_sound {dev : Device} (hready : dev.Ready g.totalSectors) (hd : Owned g dev.sectors []) (op : Op) :
    (op.after (some g) dev).Ready g.totalSectors ∧ Owned g (op.after (some g) dev).sectors [] ∧
      Outcome g dev.sectors (op.after (some g) dev).sectors op ((op.call (some g)).exec dev).1 := by
  obtain ⟨r, d', hdoes, howned, houtcome⟩ := hd.answers hg hm op
  obtain ⟨hresult, hdisk, hsame⟩ := hdoes dev hready rfl
  rw [← hdisk] at howned houtcome
  rw [← hresult] at houtcome
  exact ⟨hsame.ready hready, howned, houtcome⟩

theorem run_sound (ops : List Op) {dev : Device} (hready : dev.Ready g.totalSectors) (hd : Owned g dev.sectors []) :
    (runOps (some g) ops dev).Ready g.totalSectors ∧ Owned g (runOps (some g) ops dev).sectors [] := by
  induction ops generalizing dev with
  | nil => exact ⟨hready, hd⟩
  | cons op ops ih =>
    obtain ⟨hready', hd', -⟩ := step_sound hg hm hready hd op
    exact ih hready' hd'

end Runs

def readyTree : Device := ⟨treeDisk, 66586, true, fun _ => .none, []⟩

theorem readyTree_ready : readyTree.Ready smallGeometry.totalSectors := ⟨⟨rfl, fun _ => rfl⟩, le_refl 66586⟩

/-- **The volume stays sound.** Whatever operations are called on a sound volume, with whatever arguments, on
a drive that answers every request: every file and directory that can be reached afterwards has a chain of
its own, of the length that its size asks for, in every copy of the FAT, no cluster is lost, and no directory
holds a name twice. -/
theorem volume_stays_sound (sector : Sector) (diskSectors : Nat) (g : BpbGeometry)
    (hparse : parseBpb sector diskSectors = some g) (hm : g.mirroringEnabled = true) (dev : Device)
    (hready : dev.Ready g.totalSectors) (hd : WellFormed g dev.sectors) (ops : List Op) :
    WellFormed g (runOps (some g) ops dev).sectors :=
  wellFormed_iff.mpr (run_sound (parseBpb_sound hparse) hm ops hready (wellFormed_iff.mp hd)).2

/-- `/D/B` is written, `/A` goes over to `/D`, and `/D` is to be removed. -/
theorem volume_stays_sound_small : WellFormed smallGeometry (runOps (some smallGeometry)
    [.writeFile (some [0x2F, 0x44, 0x2F, 0x42]) (some fun _ => 7) 600, .move (some [0x2F, 0x41]) (some [0x2F, 0x44, 0x2F, 0x41]),
      .remove (some [0x2F, 0x44])] readyTree).sectors :=
  volume_stays_sound smallBoot 66586 smallGeometry parseBpb_smallBoot rfl readyTree readyTree_ready wellFormed_treeDisk _

/-- **The operations are those on a tree of names.** After any run of operations on a sound volume, on a drive
that answers every request, a call either succeeds and does to the tree what it is for, or returns the error
that the tree calls for and writes nothing. There are two exceptions. It reports that there is no space,
leaves the tree as it was, and no more clusters were free than the new object takes. Or it does not remove a
directory in which the tree shows nothing, for the sake of a slot that holds no object. -/
theorem operations_refine_tree (sector : Sector) (diskSectors : Nat) (g : BpbGeometry)
    (hparse : parseBpb sector diskSectors = some g) (hm : g.mirroringEnabled = true) (dev : Device)
    (hready : dev.Ready g.totalSectors) (hd : WellFormed g dev.sectors) (ops : List Op) (op : Op) :
    Outcome g (runOps (some g) ops dev).sectors (op.after (some g) (runOps (some g) ops dev)).sectors op
      ((op.call (some g)).exec (runOps (some g) ops dev)).1 := by
  have hg := parseBpb_sound hparse
  obtain ⟨hready', hd'⟩ := run_sound hg hm ops hready (wellFormed_iff.mp hd)
  exact (step_sound hg hm hready' hd' op).2.2

/-- `/A` is written over and `/D` gets another name. -/
theorem operations_refine_tree_small :
    Outcome smallGeometry (runOps (some smallGeometry) [.writeFile (some [0x2F, 0x41]) (some fun _ => 7) 600] readyTree).sectors
      (Op.after (some smallGeometry) (.move (some [0x2F, 0x44]) (some [0x2F, 0x45]))
        (runOps (some smallGeometry) [.writeFile (some [0x2F, 0x41]) (some fun _ => 7) 600] readyTree)).sectors
      (.move (some [0x2F, 0x44]) (some [0x2F, 0x45]))
      ((Op.call (some smallGeometry) (.move (some [0x2F, 0x44]) (some [0x2F, 0x45]))).exec
        (runOps (some smallGeometry) [.writeFile (some [0x2F, 0x41]) (some fun _ => 7) 600] readyTree)).1 :=
  operations_refine_tree smallBoot 66586 smallGeometry parseBpb_smallBoot rfl readyTree readyTree_ready wellFormed_treeDisk _ _

end Linux95.Fat32
