import Linux95.Fat32.Confinement
import Linux95.Fat32.TreeCalls
import Linux95.Fat32.Withdrawal

/-! What the parts of the operations do to a sound volume on a drive that answers every request: clusters
are allocated and freed, an entry is created. -/

namespace Linux95.Fat32
open Base Storage Write

section Same
variable {g : BpbGeometry} {n : Nat} (hg : g.Sound n) {d d' : Disk} {α : Type} {m : Io α} {r : Except Status α}
include hg

theorem same_writeStable (dev : Device) : WriteStable g (Same dev) where
  read := fun lba => keeps_of_wp fun dev' h => wp_mono (readSector_wp dev' lba)
    (fun _ _ hout => h.trans hout.2.2.2) (fun _ _ hout => h.trans hout.2.2.2.1)
  sound := ⟨n, hg⟩
  write := fun {region lba} s _ => keeps_of_wp fun dev' h => wp_mono (writeSector_wp dev' region lba s)
    (fun _ _ hout => h.trans hout.2.2) (fun _ _ hout => h.trans hout.2.2.2.1)

theorem does_of_exec (hkeeps : ∀ dev, [WriteStable g (Same dev)] → Keeps (Same dev) m)
    (h : ∀ dev : Device, dev.Ready g.totalSectors → dev.sectors = d → (m.exec dev).1 = r ∧ (m.exec dev).2.sectors = d') :
    Does g.totalSectors m d r d' := by
  intro dev hready hd
  obtain ⟨hr, hsec⟩ := h dev hready hd
  have : WriteStable g (Same dev) := same_writeStable hg dev
  exact ⟨hr, hsec, hkeeps dev dev (.refl dev)⟩

end Same

section Allocate
variable {g : BpbGeometry} {n : Nat} (hg : g.Sound n) (hm : g.mirroringEnabled = true) {d : Disk}
include hg hm

theorem does_allocateChain (hagree : ∀ c, validCluster g c = true → Agree g d c) (need : Nat) :
    need ≤ (freeClusters g d).length ∧ Does g.totalSectors (allocateChain (some g) need) d
        (.ok (((freeClusters g d).take need).headD 0)) (patchFat g (.linked ((freeClusters g d).take need)) d) ∨
      (freeClusters g d).length < need ∧ Does g.totalSectors (allocateChain (some g) need) d (.error .noSpace) d := by
  have hall := freeAmong_all g d
  have hkeeps : ∀ dev, [WriteStable g (Same dev)] → Keeps (Same dev) (allocateChain (some g) need) :=
    fun dev => keeps_allocateChain need
  have hwp := fun dev hdev => wp_iff.mp (allocateChain_wp hg hm hagree need dev hdev)
  by_cases hfits : need ≤ (freeClusters g d).length
  · refine Or.inl ⟨hfits, does_of_exec hg hkeeps fun dev hready hdev => ?_⟩
    obtain ⟨hok, herror⟩ := hwp dev hdev
    cases hresult : ((allocateChain (some g) need).exec dev).1 with
    | ok first =>
      obtain ⟨-, hfirst, hsec⟩ := hok first hresult
      rw [hall, List.nil_append] at hfirst hsec
      exact ⟨congrArg Except.ok hfirst, hsec⟩
    | error e =>
      rcases herror e hresult with ⟨-, hlt, -⟩ | ⟨-, hnot, -⟩
      · rw [hall] at hlt
        omega
      · exact absurd hready hnot
  · refine Or.inr ⟨by omega, does_of_exec hg hkeeps fun dev hready hdev => ?_⟩
    obtain ⟨hok, herror⟩ := hwp dev hdev
    cases hresult : ((allocateChain (some g) need).exec dev).1 with
    | ok first =>
      obtain ⟨hle, -, -⟩ := hok first hresult
      rw [hall] at hle
      exact absurd hle hfits
    | error e =>
      rcases herror e hresult with ⟨rfl, -, hsec⟩ | ⟨-, hnot, -⟩
      · exact ⟨rfl, hsec⟩
      · exact absurd hready hnot

def Left (g : BpbGeometry) (d d' : Disk) (taken : List Nat) : Prop := ∀ x, Free g d x → x ∈ taken ∨ Free g d' x

omit hg hm in
theorem free_mem {x : Nat} (h : Free g d x) : x ∈ freeClusters g d := by
  have hv := validCluster_iff.mp h.1
  refine List.mem_filter.mpr ⟨List.mem_range'_1.mpr ?_, h.2⟩
  omega

omit hg hm in
theorem Left.length {d' : Disk} {taken : List Nat} (h : Left g d d' taken) (hnone : freeClusters g d' = []) :
    (freeClusters g d).length ≤ taken.length := by
  -- when nothing is left, no more was free than was taken
  refine ((freeClusters_nodup g d).subperm fun x hx => ?_).length_le
  rcases h x (mem_freeClusters hx) with htaken | hfree
  · exact htaken
  · have hmem := free_mem hfree
    rw [hnone] at hmem
    cases hmem

theorem Owned.allocate (hd : Owned g d []) (need : Nat) :
    (∃ first chain d', chain.length = need ∧ Does g.totalSectors (allocateChain (some g) need) d (.ok first) d' ∧
        Holds g d' first chain ∧ Owned g d' chain ∧ Shows g d d' ∧ Left g d d' chain) ∨
      (freeClusters g d).length < need ∧ Does g.totalSectors (allocateChain (some g) need) d (.error .noSpace) d := by
  rcases does_allocateChain hg hm hd.agree need with ⟨hfits, hdoes⟩ | hfull
  · have hallocated := chainAllocated_take hg (d := d) need
    have hfree : ∀ x ∈ (freeClusters g d).take need, Free g d x := fun x hx => mem_freeClusters (List.mem_of_mem_take hx)
    have howned := hd.allocated hg hfree
    refine Or.inl ⟨_, (freeClusters g d).take need, _, ?_, hdoes, ?_, howned,
      hd.shows hg (hg.mirrored hm) howned (keepsOwned_linked hg hfree), fun x hx => ?_⟩
    · rw [List.length_take, Nat.min_eq_left hfits]
    · by_cases hnil : (freeClusters g d).take need = []
      · rw [hnil]
        exact Or.inl ⟨rfl, rfl⟩
      · exact Or.inr (hallocated.linked hnil)
    · by_cases hmem : x ∈ (freeClusters g d).take need
      · exact Or.inl hmem
      · refine Or.inr ⟨hx.1, ?_⟩
        have hsame := hx.2
        unfold isFree at hsame ⊢
        rw [used_patchFat hg hx.1 (chainValue_of_notMem hmem)]
        exact hsame
  · exact Or.inr hfull

theorem Owned.free {chain : List Nat} {first : Nat} (hd : Owned g d chain) (hholds : Holds g d first chain) :
    ∃ d', Does g.totalSectors (freeChain (some g) first) d (.ok ()) d' ∧ Owned g d' [] ∧ Shows g d d' := by
  have howned := hd.freed hg
  have hshows := hd.shows hg (hg.mirrored hm) howned (keepsOwned_cleared hg)
  rcases does_freeChain hg hm d first with ⟨hzero, hdoes⟩ | ⟨l, -, ⟨hl, -, -⟩, hdoes⟩ | ⟨hne, hnot, -⟩
  · have hnil : chain = [] := by
      rcases hholds with ⟨-, hnil⟩ | hl
      · exact hnil
      · exact absurd hzero hl.first_ne
    rw [hnil] at hd
    exact ⟨d, hdoes, hd, hd.shows_self⟩
  · rw [← hholds.eq hl] at hdoes
    exact ⟨_, hdoes, howned, hshows⟩
  · have hl := hholds.chain hne
    exact absurd ⟨chain, hl, fun x hx => hd.agree x (hl.valid x hx), hl.length_le⟩ hnot

end Allocate

section Create
variable {g : BpbGeometry} {n : Nat} (hg : g.Sound n) (hm : g.mirroringEnabled = true) {d : Disk} {held : List Nat}
  (hd : Owned g d held) {p : Nat} {text : CString} {name : ShortName} (henc : encodeComponent text = some name)
  (hmiss : lookup g d p name = none)
include hg hm hd henc hmiss

theorem does_createDirectoryEntry_full {chain : List Nat} (hchain : Chain g d p chain) {free : FreeSearch} {tail : Nat}
    (hfind : value (findInDirectory g p name) d = .ok (.notFound free tail)) (hgrow : growthNeeded g d free tail)
    (hfull : freeClusters g d = []) (entry : Entry) :
    Does g.totalSectors (createDirectoryEntry (some g) p text entry) d (.ok (.error (.noSpace, true))) d := by
  obtain ⟨free', tail', hfind', hvacancy⟩ := value_missing hg hchain hmiss
  obtain ⟨rfl, rfl⟩ := Search.notFound.inj (Except.ok.inj (hfind'.symm.trans hfind))
  obtain ⟨-, marker, hmarker, -, -⟩ := hvacancy.slots hg hchain
  have hgrow' : free'.freeSlot.lba = 0 ∨ free'.freeIsEnd = true ∧ marker.isNone = true := by
    refine hgrow.imp id fun ⟨hend, hnone⟩ => ⟨hend, ?_⟩
    rw [hmarker] at hnone
    rw [Except.ok.inj hnone]
    rfl
  have hallocate : Does g.totalSectors (allocateChain (some g) 1) d (.error .noSpace) d := by
    rcases does_allocateChain hg hm hd.agree 1 with ⟨hfits, -⟩ | ⟨-, hdoes⟩
    · rw [hfull] at hfits
      exact absurd hfits (by decide)
    · exact hdoes
  have hprepare : Does g.totalSectors (prepareSlot (some g) g free' tail') d (.error .noSpace) d := by
    unfold prepareSlot
    refine .bind (.of_value (reads_markerFor free' tail') hmarker) ?_
    rw [if_pos hgrow']
    exact .bind_error (.bind_error hallocate _) _
  have hpending : Does g.totalSectors (pendingEntry g p name) d (.error .noSpace) d := by
    unfold pendingEntry
    exact .bind (.of_value (reads_findInDirectory p name) hfind) (.bind_error hprepare _)
  rw [createDirectoryEntry_pending hm henc]
  exact .bind hpending.attempt (.pure _)

theorem does_createDirectoryEntry_cases {chain : List Nat} (hchain : Chain g d p chain) (entry : Entry) :
    (∃ slot tail fresh t chain', Prepared g d p chain tail slot fresh t chain' ∧
      Does g.totalSectors (createDirectoryEntry (some g) p text entry) d (.ok (.ok slot)) (putSlot t slot (setName entry name))) ∨
    freeClusters g d = [] ∧
      Does g.totalSectors (createDirectoryEntry (some g) p text entry) d (.ok (.error (.noSpace, true))) d := by
  obtain ⟨free, tail, hfind, hvacancy⟩ := value_missing hg hchain hmiss
  by_cases hspace : growthNeeded g d free tail → freeClusters g d ≠ []
  · obtain ⟨slot, fresh, t, chain', hprepared, hprepare⟩ := oneFault_prepareSlot hg hm hd.agree hchain hvacancy hspace
    exact Or.inl ⟨slot, tail, fresh, t, chain', hprepared,
      does_createDirectoryEntry hg hm entry henc hfind hprepared hprepare.does⟩
  · push Not at hspace
    exact Or.inr ⟨hspace.2, does_createDirectoryEntry_full hg hm hd henc hmiss hchain hfind hspace.1 hspace.2 entry⟩

end Create

section Publish
variable {g : BpbGeometry} {n : Nat} (hg : g.Sound n) (hm : g.mirroringEnabled = true) {d d' : Disk} {held : List Nat} {e : Entry}
include hg

theorem Stands.stored_kept (hactive : g.activeFat = 0) (h : Stands g d e held) (hholds : Holds g d' (firstCluster e) held)
    (hdata : ∀ x ∈ held, ∀ i, i < g.sectorsPerCluster → d' (g.dataLba x i) = d (g.dataLba x i)) :
    stored g d' e = stored g d e := by
  unfold stored
  split_ifs with hfile
  · exact Eq.refl _
  · by_cases hfirst : firstCluster e = 0
    · rw [(h.file (Bool.eq_false_iff.mpr hfile)).1.mp hfirst, fileBytes_zero, fileBytes_zero]
    · rw [fileBytes_kept hg hactive (h.holds.chain hfirst) (hholds.chain hfirst) hdata]

theorem Owned.insert (hactive : g.activeFat = 0) (hd : Owned g d held) {p : Nat} {q : List ShortName} {lp : List Nat}
    {slot : DirectorySlot} (hq : (naming g d).walk g.rootCluster q = some p) (hchain : Chain g d p lp)
    (hslot : Vacant d (dirSlots g lp) slot) (hstands : Stands g d e held) (hordinary : ordinary e = true)
    (hname : ∀ s ∈ objectSlots g d p, (entryAt d s).name ≠ e.name)
    (hempty : isDirectoryEntry e = true → objectSlots g d (firstCluster e) = []) :
    Owned g (putSlot d slot e) [] ∧
      tree g (putSlot d slot e) = (tree g d).put (q ++ [e.name]) (some (stored g d e).node) := by
  have hp := walk_directory hq
  have hopen : Open g d p lp slot := Or.inl hslot
  have hself : entryAt (putSlot d slot e) slot = e := entryAt_putSlot_self (aligned_of_mem (hopen.mem hchain)) e
  obtain ⟨hedited, howned⟩ := hd.inserted hg hp hchain hslot hstands hordinary hname hempty
  have hstill := hstands.put hg hchain hopen
  rw [hself] at hstill
  have hstored : stored g (putSlot d slot e) e = stored g d e := by
    refine hstands.stored_kept hg hactive hstill.holds fun x hx i hi => ?_
    rcases hstands.holds with ⟨-, rfl⟩ | hl
    · cases hx
    · exact (put_loose hg hd hp hchain hopen hl).2 x hx i hi
  have hsets := hedited.sets hg hactive hd howned (fun s hs => nomatch hs) (fun _ => hname)
    (fun s hs => by rw [← Option.some.inj hs, hself])
  rw [Option.map_some, hself, hstored] at hsets
  refine ⟨howned, tree_put hd.unique hq hsets (fun v m hv => ?_) fun v m hv hchild => ?_⟩
  · obtain ⟨s, hs, hsname, -⟩ := find_mem hv
    exact absurd hsname (hname s hs)
  -- a new directory is still empty
  · obtain rfl := Option.some.inj hv
    obtain ⟨hdirectory, rfl⟩ := stored_child.mp hchild
    have hl := hstands.holds.chain (hstands.directory hdirectory)
    obtain ⟨hl', hdata⟩ := put_loose hg hd hp hchain hopen hl (e := e)
    rw [(objectSlots_alike (alike_of_sectors hl hl' hdata)).1]
    exact hempty hdirectory

theorem Owned.publish (hm : g.mirroringEnabled = true) (hd : Owned g d held) {p : Nat} {q : List ShortName}
    (hq : (naming g d).walk g.rootCluster q = some p) {text text' : CString} {name : ShortName}
    (henc : encodeComponent text = some name) (henc' : encodeShortName text' = some name) (hmiss : lookup g d p name = none)
    {entry : Entry} (hattr : entry.byte 11 &&& 0x08 = 0) (hstands : Stands g d (setName entry name) held)
    (hempty : isDirectoryEntry (setName entry name) = true → objectSlots g d (firstCluster (setName entry name)) = []) :
    (∃ slot d', Does g.totalSectors (createDirectoryEntry (some g) p text entry) d (.ok (.ok slot)) d' ∧ Owned g d' [] ∧
      tree g d' = (tree g d).put (q ++ [name]) (some (stored g d (setName entry name)).node)) ∨
    freeClusters g d = [] ∧
      Does g.totalSectors (createDirectoryEntry (some g) p text entry) d (.ok (.error (.noSpace, true))) d := by
  have hactive := hg.mirrored hm
  have hp := walk_directory hq
  obtain ⟨chain, hchain⟩ := hd.directories p hp
  rcases does_createDirectoryEntry_cases hg hm hd henc hmiss hchain entry with
    ⟨slot, tail, fresh, t, chain', hprepared, hdoes⟩ | hdoes
  swap
  · exact Or.inr hdoes
  -- with the slot prepared the volume shows what it showed
  have hprepares := hprepared.edited hg hd hp hchain
  have ht := hprepared.owned hg hd hp hchain
  have hsame := hprepares.find_same hg hactive hd ht
  obtain ⟨hholds, hdata⟩ := hprepared.loose_kept hg hd hp hchain hstands.holds
  obtain ⟨hslots, hentries⟩ := objectSlots_alike (hprepared.alike hg hd hp hchain hp)
  have hstands' : Stands g t (setName entry name) held := ⟨hholds, hstands.directory, hstands.file, hstands.encoded⟩
  have hinsert := ht.insert hg hactive ((walk_same hsame).trans hq) hprepared.linked hprepared.vacant hstands'
    (ordinary_setName henc' hattr) ?_ ?_
  · obtain ⟨howned, htree⟩ := hinsert
    rw [tree_congr hsame, name_setName, hstands.stored_kept hg hactive hholds hdata] at htree
    exact Or.inl ⟨slot, _, hdoes, howned, htree⟩
  · intro s hs
    rw [hslots] at hs
    rw [hentries s hs, name_setName]
    exact hd.lookup_none hp henc' hmiss hs
  · intro hdirectory
    have hfirst := hstands.directory hdirectory
    rw [(objectSlots_alike (alike_of_sectors (hstands.holds.chain hfirst) (hholds.chain hfirst) hdata)).1]
    exact hempty hdirectory

end Publish

end Linux95.Fat32
