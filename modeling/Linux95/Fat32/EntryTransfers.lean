import Linux95.Fat32.VolumeEdits

/-! An entry is put into a directory, marked deleted or overwritten, and its clusters change their owner. -/

namespace Linux95.Fat32
open Base Storage Write

section Names
variable {g : BpbGeometry} {d : Disk} {loose : List Nat} {c : Nat} {text : CString} {name : ShortName} {s : DirectorySlot}

theorem Owned.lookup_iff (hd : Owned g d loose) (hc : Directory g d c) (henc : encodeShortName text = some name) :
    lookup g d c name = some s ↔ s ∈ objectSlots g d c ∧ (entryAt d s).name = name := by
  have hmatch : ∀ x ∈ objectSlots g d c, isHit d name x = true ↔ (entryAt d x).name = name := by
    intro x hx
    obtain ⟨text', henc'⟩ := (hd.encoded c x hc hx).1
    have hlive := (mem_objectSlots.mp hx).2.1
    unfold isHit
    rw [hlive, Bool.true_and]
    exact nameMatches_encoded henc'
  constructor
  · intro h
    have hmem := lookup_object henc h
    exact ⟨hmem, (hmatch s hmem).mp (lookup_mem h).2⟩
  · rintro ⟨hmem, hname⟩
    cases hfind : lookup g d c name with
    | none =>
      have hnot := List.find?_eq_none.mp hfind s (mem_objectSlots.mp hmem).1
      exact absurd ((hmatch s hmem).mpr hname) hnot
    | some s' =>
      have hmem' := lookup_object henc hfind
      have hname' := (hmatch s' hmem').mp (lookup_mem hfind).2
      rw [hd.distinct c s' s hc hmem' hmem (hname'.trans hname.symm)]

theorem Owned.lookup_none (hd : Owned g d loose) (hc : Directory g d c) (henc : encodeShortName text = some name)
    (h : lookup g d c name = none) {x : DirectorySlot} (hx : x ∈ objectSlots g d c) : (entryAt d x).name ≠ name := by
  intro hname
  have hfound := (hd.lookup_iff hc henc).mpr ⟨hx, hname⟩
  rw [h] at hfound
  cases hfound

theorem ordinary_setName (henc : encodeShortName text = some name) {e : Entry} (hattr : e.byte 11 &&& 0x08 = 0) :
    ordinary (setName e name) = true := by
  have hfirst : (setName e name).byte 0 ≠ 0x2E := by
    rw [byte_setName_low (by decide)]
    exact encoded_first henc
  unfold ordinary isDotEntry
  rw [(setName_hit henc).2.2 hattr]
  simp [hfirst]

theorem ordinary_byte {e : Entry} (h : ordinary e = true) : e.byte 0 ≠ 0 ∧ e.byte 11 &&& 0x08 = 0 := by
  unfold ordinary liveShortEntry at h
  simp only [Bool.and_eq_true, decide_eq_true_eq] at h
  exact ⟨h.1.1.1.1, h.1.2⟩

theorem ordinary_deleted (e : Entry) : (e.setByte 0 0xE5).byte 0 ≠ 0 ∧ ordinary (e.setByte 0 0xE5) = false := by
  have hbyte : (e.setByte 0 0xE5).byte 0 = 0xE5 := rfl
  unfold ordinary liveShortEntry
  rw [hbyte]
  simp

end Names

section Transfers
variable {g : BpbGeometry} {n : Nat} (hg : g.Sound n) {d : Disk} {loose loose' held released lp : List Nat} {p : Nat}
  {slot : DirectorySlot} {e : Entry} (hp : Directory g d p) (hchain : Chain g d p lp)
include hg hp hchain

omit hg hp in
theorem Vacant.no_object (h : Vacant d (dirSlots g lp) slot) : slot ∉ objectSlots g d p := by
  intro hslot
  obtain ⟨hused, hlive, -⟩ := mem_objectSlots.mp hslot
  obtain ⟨-, -, -, -, hdeleted | ⟨hunused, -⟩⟩ := h
  · have hbyte : (entryAt d slot).byte 0 = 0xE5 := of_decide_eq_true hdeleted
    unfold liveShortEntry at hlive
    rw [hbyte] at hlive
    simp at hlive
  · rw [usedSlots_chain hchain] at hused
    rw [(mem_inUse hused).2] at hunused
    cases hunused

omit hp in
theorem Stands.put (hslot : Open g d p lp slot) (h : Stands g d e held) :
    Stands g (putSlot d slot e) (entryAt (putSlot d slot e) slot) held := by
  rw [entryAt_putSlot_self (aligned_of_mem (hslot.mem hchain))]
  exact ⟨h.holds.imp id (put_chain hg hchain hslot), h.directory, h.file, h.encoded⟩

theorem Owned.inserted (hd : Owned g d held) (hslot : Vacant d (dirSlots g lp) slot) (hstands : Stands g d e held)
    (hordinary : ordinary e = true) (hname : ∀ s ∈ objectSlots g d p, (entryAt d s).name ≠ e.name)
    (hempty : isDirectoryEntry e = true → objectSlots g d (firstCluster e) = []) :
    Edited g d (putSlot d slot e) p none (some slot) [] ∧ Owned g (putSlot d slot e) [] := by
  have hopen : Open g d p lp slot := Or.inl hslot
  have hnone := hslot.no_object hchain
  have hself : entryAt (putSlot d slot e) slot = e := entryAt_putSlot_self (aligned_of_mem (hopen.mem hchain)) e
  have hedited : Edited g d (putSlot d slot e) p none (some slot) [] := by
    refine hd.put_edited hg hp hchain hopen (ordinary_byte hordinary).1 (fun s => ⟨nofun, fun h => absurd h.2 hnone⟩)
      (fun s => ⟨fun h => ⟨(Option.some.inj h).symm, hordinary⟩, fun h => congrArg some h.1.symm⟩) ?_
      (fun h => absurd h hnone)
    -- a directory that is put in lies apart from the one that it is put into
    intro _ hdirectory
    have hl := hstands.holds.chain (hstands.directory hdirectory)
    obtain ⟨hl', hdata⟩ := put_loose hg hd hp hchain hopen hl (e := e)
    right
    rw [(objectSlots_alike (alike_of_sectors hl hl' hdata)).1]
    exact hempty hdirectory
  refine ⟨hedited, hedited.owned hd (?_ : Transfer g d _ p none (some slot) held [] [] held)⟩
  constructor
  case given => exact fun s hs => nomatch hs
  case nothing => exact fun _ => rfl
  case taken =>
    intro s hs
    obtain rfl := Option.some.inj hs
    exact hstands.put hg hchain hopen
  case none => exact fun h => nomatch h
  case distinct =>
    intro s s' hs hs' _
    obtain rfl := Option.some.inj hs
    rw [hself]
    exact (hname s' hs').symm
  case passed => exact fun x => or_comm.trans (or_comm.trans Iff.rfl)
  case disjoint => exact List.disjoint_nil_right _

theorem Owned.deleted (hd : Owned g d loose) (hslot : slot ∈ objectSlots g d p)
    (hholds : Holds g d (firstCluster (entryAt d slot)) released)
    (hempty : isDirectoryEntry (entryAt d slot) = true → objectSlots g d (firstCluster (entryAt d slot)) = []) :
    Edited g d (deleteSlot d slot) p (some slot) none [] ∧ Owned g (deleteSlot d slot) (loose ++ released) := by
  have hopen : Open g d p lp slot := Or.inr (mem_objectSlots.mp hslot).1
  obtain ⟨hbyte, hgone⟩ := ordinary_deleted (entryAt d slot)
  have hedited : Edited g d (deleteSlot d slot) p (some slot) none [] := by
    refine hd.put_edited hg hp hchain hopen hbyte
      (fun s => ⟨fun h => ⟨(Option.some.inj h).symm, hslot⟩, fun h => congrArg some h.1.symm⟩)
      (fun s => ⟨nofun, fun h => ?_⟩) (fun h => ?_) fun _ hdirectory => Or.inr (hempty hdirectory)
    · rw [hgone] at h
      cases h.2
    · rw [hgone] at h
      cases h
  refine ⟨hedited, hedited.owned hd (?_ : Transfer g d _ p (some slot) none loose (loose ++ released) released [])⟩
  constructor
  case given =>
    intro s hs
    obtain rfl := Option.some.inj hs
    exact ⟨p, hp, hslot, hholds⟩
  case nothing => exact fun h => nomatch h
  case taken => exact fun s hs => nomatch hs
  case none => exact fun _ => rfl
  case distinct => exact fun s s' hs => nomatch hs
  case passed =>
    intro x
    rw [List.mem_append]
    exact or_iff_right List.not_mem_nil
  case disjoint => exact List.disjoint_nil_left _

theorem Owned.overwritten (hd : Owned g d loose) (hslot : slot ∈ objectSlots g d p)
    (hholds : Holds g d (firstCluster (entryAt d slot)) released) (hstands : Stands g d e held)
    (hordinary : ordinary e = true)
    (hname : ∀ s ∈ objectSlots g d p, s ≠ slot → (entryAt d s).name ≠ e.name)
    (hdirectory : isDirectoryEntry e = isDirectoryEntry (entryAt d slot))
    (hfirst : isDirectoryEntry e = true → firstCluster e = firstCluster (entryAt d slot))
    (hpassed : ∀ x, x ∈ held ∨ x ∈ loose' ↔ x ∈ loose ∨ x ∈ released) (hdisjoint : List.Disjoint held loose') :
    Edited g d (putSlot d slot e) p (some slot) (some slot) [] ∧ Owned g (putSlot d slot e) loose' := by
  have hopen : Open g d p lp slot := Or.inr (mem_objectSlots.mp hslot).1
  have hself : entryAt (putSlot d slot e) slot = e := entryAt_putSlot_self (aligned_of_mem (hopen.mem hchain)) e
  have hedited : Edited g d (putSlot d slot e) p (some slot) (some slot) [] := by
    refine hd.put_edited hg hp hchain hopen (ordinary_byte hordinary).1
      (fun s => ⟨fun h => ⟨(Option.some.inj h).symm, hslot⟩, fun h => congrArg some h.1.symm⟩)
      (fun s => ⟨fun h => ⟨(Option.some.inj h).symm, hordinary⟩, fun h => congrArg some h.1.symm⟩) ?_ ?_
    · intro _ hdir
      rw [hfirst hdir]
      exact Or.inl (.child hp hslot (hdirectory.symm.trans hdir))
    · intro _ hdir
      have hdir := hdirectory.trans hdir
      exact Or.inl ⟨hordinary, hdir, hfirst hdir⟩
  refine ⟨hedited, hedited.owned hd (?_ : Transfer g d _ p (some slot) (some slot) loose loose' released held)⟩
  constructor
  case given =>
    intro s hs
    obtain rfl := Option.some.inj hs
    exact ⟨p, hp, hslot, hholds⟩
  case nothing => exact fun h => nomatch h
  case taken =>
    intro s hs
    obtain rfl := Option.some.inj hs
    exact hstands.put hg hchain hopen
  case none => exact fun h => nomatch h
  case distinct =>
    intro s s' hs hs' hkept
    obtain rfl := Option.some.inj hs
    rw [hself]
    refine (hname s' hs' ?_).symm
    rintro rfl
    exact hkept rfl
  case passed => exact hpassed
  case disjoint => exact hdisjoint

end Transfers

end Linux95.Fat32
