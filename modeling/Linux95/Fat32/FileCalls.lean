import Linux95.Fat32.VolumeCalls

/-! `write_file` and `copy_file`: the bytes go to new clusters, which then become those of the file. -/

namespace Linux95.Fat32
open Base Storage Write

section NewBytes
variable {g : BpbGeometry} {n : Nat} (hg : g.Sound n) (hactive : g.activeFat = 0) {d d' : Disk} {first size : Nat} {chain : List Nat}
include hg hactive

theorem fileBytes_eq (hl : Chain g d first chain) {f : Nat → UInt8}
    (h : ∀ j, j < size → (chainBytes g d chain)[j]? = some (f j)) : fileBytes g d first size = (List.range size).map f := by
  rw [fileBytes_chain hg hactive hl]
  refine List.ext_getElem? fun j => ?_
  rw [List.getElem?_take, List.getElem?_map]
  split_ifs with hj
  · rw [h j hj, List.getElem?_range hj]
    rfl
  · rw [List.getElem?_eq_none (by rw [List.length_range]; omega)]
    rfl

theorem does_writeData (data : Bytes) (hholds : Holds g d first chain) (hlength : chain.length = fileClusters g size) :
    ∃ d', Does g.totalSectors (writeClusters g data (fileClusters g size) first 0 size) d (.ok ()) d' ∧ OnlyData g chain d d' ∧
      fileBytes g d' first size = (List.range size).map data := by
  rcases hholds with ⟨rfl, rfl⟩ | hl
  · have hclusters : fileClusters g size = 0 := hlength.symm
    have hsize := (fileClusters_zero_iff hg).mp hclusters
    rw [hclusters, hsize]
    refine ⟨d, ?_, .refl g [] d, rfl⟩
    unfold writeClusters
    rw [if_neg (by decide)]
    exact .pure _
  · have hroom : size ≤ fileClusters g size * g.clusterBytes := fileClusters_room hg
    rw [← hlength] at hroom ⊢
    obtain ⟨d', hdoes, honly, hbytes⟩ := does_writeClusters hg data chain first 0 size d hl hroom
    have hl' : Chain g d' first chain := hl.congr fun x _ => honly.link hg hl.valid x
    refine ⟨d', hdoes, honly, fileBytes_eq hg hactive hl' fun j hj => ?_⟩
    rw [hbytes j hj, Nat.zero_add]

omit hg hactive in
theorem length_chainBytes (d : Disk) (chain : List Nat) : (chainBytes g d chain).length = chain.length * g.clusterBytes := by
  unfold chainBytes
  refine length_flatMap_uniform (fun x => ?_) chain
  rw [length_flatMap_uniform (fun i => length_sectorBytes _), List.length_range]
  rfl

theorem does_copyData {source : Nat} {l : List Nat} (hagree : ∀ x, validCluster g x = true → Agree g d x)
    (hsource : Holds g d source l) (hlength' : l.length = fileClusters g size) (hholds : Holds g d first chain)
    (hlength : chain.length = fileClusters g size) (hdisjoint : List.Disjoint l chain) :
    ∃ d', Does g.totalSectors (copyClusters g (fileClusters g size) source first size) d (.ok ()) d' ∧ OnlyData g chain d d' ∧
      fileBytes g d' first size = fileBytes g d source size := by
  rcases hholds with ⟨rfl, rfl⟩ | hl
  · have hclusters : fileClusters g size = 0 := hlength.symm
    have hsize := (fileClusters_zero_iff hg).mp hclusters
    rw [hclusters, hsize]
    refine ⟨d, ?_, .refl g [] d, rfl⟩
    unfold copyClusters
    rw [if_neg (by decide)]
    exact .pure _
  · have hsource' : Chain g d source l := by
      rcases hsource with ⟨-, rfl⟩ | hsource
      · rw [← hlength', List.length_nil, List.length_eq_zero_iff] at hlength
        rw [hlength] at hl
        exact absurd hl.head_mem List.not_mem_nil
      · exact hsource
    have hroom : size ≤ fileClusters g size * g.clusterBytes := fileClusters_room hg
    rw [← hlength'] at hroom ⊢
    obtain ⟨d', hdoes, honly, hbytes⟩ := does_copyClusters hg l chain source first size d hsource' hl
      (hlength'.trans hlength.symm) hdisjoint hagree hroom
    have hl' : Chain g d' first chain := hl.congr fun x _ => honly.link hg hl.valid x
    refine ⟨d', hdoes, honly, ?_⟩
    rw [fileBytes_eq hg hactive hl' hbytes, fileBytes_eq hg hactive hsource' fun j hj => ?_]
    rw [List.getD_eq_getElem?_getD, List.getElem?_eq_getElem (by rw [length_chainBytes]; omega)]
    rfl

theorem length_fileBytes (hholds : Holds g d first chain) (hlength : chain.length = fileClusters g size) :
    (fileBytes g d first size).length = size := by
  have hroom : size ≤ fileClusters g size * g.clusterBytes := fileClusters_room hg
  rw [← hlength] at hroom
  rcases hholds with ⟨-, rfl⟩ | hl
  · have hsize : size = 0 := by
      rw [List.length_nil, Nat.zero_mul] at hroom
      omega
    rw [hsize]
    rfl
  · rw [fileBytes_chain hg hactive hl, List.length_take, length_chainBytes]
    omega

end NewBytes

section Release
variable {g : BpbGeometry} {n : Nat} (hg : g.Sound n) (hm : g.mirroringEnabled = true) {d : Disk} {chain : List Nat} {first : Nat}
include hg hm

theorem Owned.release (hd : Owned g d chain) (hholds : Holds g d first chain) :
    ∃ d', Does g.totalSectors (releaseChain (some g) first) d (.ok ()) d' ∧ Owned g d' [] ∧ Shows g d d' := by
  unfold releaseChain
  by_cases hfirst : first = 0
  · have hnil : chain = [] := by
      rcases hholds with ⟨-, hnil⟩ | hl
      · exact hnil
      · exact absurd hfirst hl.first_ne
    rw [hnil] at hd
    rw [if_pos hfirst]
    exact ⟨d, .pure _, hd, hd.shows_self⟩
  · obtain ⟨d', hdoes, howned, hshows⟩ := hd.free hg hm hholds
    rw [if_neg hfirst]
    exact ⟨d', .bind hdoes.attempt (.pure _), howned, hshows⟩

end Release

theorem setName_self (e : Entry) : setName e e.name = e := by
  funext j
  unfold setName
  split_ifs with hj
  · unfold ShortName.byte Entry.name Entry.byte
    rw [dif_pos hj, dif_pos j.isLt]
  · rfl

section Replace
variable {g : BpbGeometry} {n : Nat} (hg : g.Sound n) (hm : g.mirroringEnabled = true) {d : Disk} {chain : List Nat}
  {ns : List ShortName} {r : ResolvedPath} {fresh size : Nat}
include hg hm

theorem Owned.replaceEntry (hd : Owned g d chain) (hloc : Located g d ns r) (hexists : r.existing = true)
    (hfile : isDirectoryEntry r.entry = false) (hholds : Holds g d fresh chain) (hlength : chain.length = fileClusters g size)
    (hsize : size < 2 ^ 32) :
    ∃ old d', Does g.totalSectors (replaceEntry (some g) r fresh size) d (.ok ()) d' ∧ Owned g d' old ∧
      Holds g d' (oldCluster r) old ∧ tree g d' = (tree g d).put ns (some (.file (fileBytes g d fresh size))) := by
  -- the entry of a file gets new clusters, and nobody owns the old ones any more
  have hactive := hg.mirrored hm
  obtain ⟨before, rfl, hwalk⟩ := hloc.path
  obtain ⟨text, henc⟩ := hloc.encoded
  obtain ⟨hslot, hentry⟩ := hloc.object hexists
  have hp := hloc.parent
  obtain ⟨lp, hchain⟩ := hd.directories _ hp
  obtain ⟨old, hold, hapart⟩ := hloc.stands hd hexists
  have hname := hloc.name hd hexists
  obtain ⟨e', he'⟩ : ∃ e', e' = updatedEntry r.entry r.name fresh size := ⟨_, rfl⟩
  obtain ⟨hname', hattr, hcluster, hstored, hsize'⟩ := updatedEntry_fields r.name hold.encoded.2 (hholds.lt hg) hsize
  rw [← he'] at hname' hattr hcluster hstored hsize'
  have hfile' : isDirectoryEntry e' = false := by
    unfold isDirectoryEntry at hfile ⊢
    rw [hattr]
    exact hfile
  have hordinary : ordinary (entryAt d r.slot) = true := (List.mem_filter.mp hslot).2
  have hordinary' : ordinary e' = true := by
    have hset := ordinary_setName henc (e := e') (by rw [hattr, hentry]; exact (ordinary_byte hordinary).2)
    rw [← hname', setName_self] at hset
    exact hset
  have hstands : Stands g d e' chain := stands_file hg (hname'.symm ▸ henc) hfile' hcluster hstored hsize' hholds hlength
  have hopen : Open g d r.parentCluster lp r.slot := Or.inr (mem_objectSlots.mp hslot).1
  have hself : entryAt (putSlot d r.slot e') r.slot = e' := entryAt_putSlot_self (aligned_of_mem (hopen.mem hchain)) e'
  obtain ⟨hedited, howned⟩ := hd.overwritten hg hp hchain hslot (hentry ▸ hold.holds) hstands hordinary'
    (fun s hs hne heq => hne (hd.distinct _ s r.slot hp hs hslot (by rw [heq, hname', ← hname, hentry])))
    (by rw [hfile', ← hentry, hfile]) (fun h => by rw [hfile'] at h; cases h)
    (fun x => (Iff.rfl : x ∈ chain ∨ x ∈ old ↔ x ∈ chain ∨ x ∈ old)) hapart
  have hnode : stored g (putSlot d r.slot e') e' = .file (fileBytes g d fresh size) := by
    have hkept := hstands.put hg hchain hopen
    rw [hself] at hkept
    rw [hstands.stored_kept hg hactive hkept.holds fun x hx i hi => ?_, stored_file hfile' hcluster hsize']
    rcases hholds with ⟨-, rfl⟩ | hl
    · cases hx
    · exact (put_loose hg hd hp hchain hopen hl).2 x hx i hi
  have hgone : ∀ s, some r.slot = some s → s ∈ objectSlots g d r.parentCluster ∧ (entryAt d s).name = r.name := by
    intro s hs
    rw [← Option.some.inj hs]
    exact ⟨hslot, hentry ▸ hname⟩
  have hsets := hedited.sets hg hactive hd howned hgone (fun h => by cases h)
    (fun s hs => by rw [← Option.some.inj hs, hself, hname'])
  rw [Option.map_some, hself, hnode] at hsets
  have hput := tree_put hd.unique hwalk hsets ?_ ?_
  · refine ⟨old, putSlot d r.slot e', ?_, howned, ?_, hput⟩
    · obtain ⟨hvalid, -, hlba⟩ := slot_bounds hg hchain.valid (hopen.mem hchain)
      have hupdate := does_updateDirectoryEntry r.name size hvalid hlba hm (mem_objectSlots.mp hslot).2.1
        (hholds.imp And.left fun hl => hl.valid fresh hl.head_mem)
      rw [← hentry, ← he'] at hupdate
      exact .bind hupdate.attempt (.pure _)
    · unfold oldCluster
      rw [if_pos hexists]
      exact hold.holds.imp id (put_chain hg hchain hopen)
  -- what was there was a file, and is one
  · intro v m hv hchild
    obtain ⟨s, hs, hsname, rfl⟩ := find_mem hv
    obtain rfl := hd.distinct _ s r.slot hp hs hslot (by rw [hsname, ← hname, hentry])
    rw [← hentry] at hchild
    have hdirectory := (stored_child.mp hchild).1
    rw [hfile] at hdirectory
    cases hdirectory
  · intro v m hv hchild
    rw [← Option.some.inj hv] at hchild
    cases hchild

end Replace

def storeFile (g : BpbGeometry) (path : Option CString) (data : Bytes) (size : Nat) (resolved : ResolvedPath) : Io Unit := do
  let fresh ← allocateChain (some g) (fileClusters g size)
  match ← (writeClusters g data (fileClusters g size) fresh 0 size).attempt with
  | .error status => do
    let cleanup ← discardChain (some g) fresh
    throw (statusAfter cleanup status)
  | .ok () =>
    publishFile (some g) path resolved fresh size
    releaseChain (some g) (oldCluster resolved)

def storeCopy (g : BpbGeometry) (destination : Option CString) (source target : ResolvedPath) : Io Unit := do
  let fresh ← allocateChain (some g) (fileClusters g (le32 source.entry.byte 28))
  match ← (copyClusters g (fileClusters g (le32 source.entry.byte 28)) (firstCluster source.entry) fresh
      (le32 source.entry.byte 28)).attempt with
  | .error status => do
    let cleanup ← discardChain (some g) fresh
    throw (statusAfter cleanup status)
  | .ok () =>
    publishChain (some g) destination target.parentCluster target.name
      (fileEntry target.name fresh (le32 source.entry.byte 28)) fresh

section Files
variable {g : BpbGeometry} {n : Nat} (hg : g.Sound n) (hm : g.mirroringEnabled = true) {d : Disk} {chain : List Nat}
  {ns : List ShortName} {r : ResolvedPath} {fresh size : Nat} {path : Option CString}
include hg hm

theorem Owned.publishNew (hd : Owned g d chain) (hres : (tree g d).resolve path = .ok ns) (hloc : Located g d ns r)
    (hmissing : r.existing = false) (hholds : Holds g d fresh chain) (hlength : chain.length = fileClusters g size)
    (hsize : size < 2 ^ 32) :
    (∃ d', Does g.totalSectors (Write.publishChain (some g) path r.parentCluster r.name (fileEntry r.name fresh size) fresh) d
        (.ok ()) d' ∧ Owned g d' [] ∧ tree g d' = (tree g d).put ns (some (.file (fileBytes g d fresh size)))) ∨
    freeClusters g d = [] ∧ ∃ d', Does g.totalSectors
      (Write.publishChain (some g) path r.parentCluster r.name (fileEntry r.name fresh size) fresh) d (.error .noSpace) d' ∧
      Owned g d' [] ∧ tree g d' = tree g d := by
  obtain ⟨text, henc⟩ := hloc.encoded
  obtain ⟨hname, hattribute, hcluster, hstored, hsize'⟩ := fileEntry_fields r.name (hholds.lt hg) hsize
  obtain ⟨hfile, hattr⟩ := attribute_file hattribute
  have hself : setName (fileEntry r.name fresh size) r.name = fileEntry r.name fresh size := by
    have hset := setName_self (fileEntry r.name fresh size)
    rw [hname] at hset
    exact hset
  have hstands : Stands g d (fileEntry r.name fresh size) chain :=
    stands_file hg (hname.symm ▸ henc) hfile hcluster hstored hsize' hholds hlength
  have hpublish := hd.publishChain hg hm hres hloc hmissing hholds hattr (hself.symm ▸ hstands)
    (fun h => by rw [hself, hfile] at h; cases h)
  rw [hself, stored_file hfile hcluster hsize'] at hpublish
  exact hpublish

theorem Owned.storeFile (hd : Owned g d []) (hres : (tree g d).resolve path = .ok ns) (hloc : Located g d ns r)
    (hfile : r.existing = true → isDirectoryEntry r.entry = false) (data : Bytes) (hsize : size < 2 ^ 32) :
    (∃ d', Does g.totalSectors (Fat32.storeFile g path data size r) d (.ok ()) d' ∧ Owned g d' [] ∧
      tree g d' = (tree g d).put ns (some (.file ((List.range size).map data)))) ∨
    (freeClusters g d).length ≤ fileClusters g size ∧ ∃ d', Does g.totalSectors (Fat32.storeFile g path data size r) d
      (.error .noSpace) d' ∧ Owned g d' [] ∧ tree g d' = tree g d := by
  have hactive := hg.mirrored hm
  rcases hd.allocate hg hm (fileClusters g size) with
    ⟨fresh, chain, d₁, hlength, hallocate, hholds, howned, hshows, hleft⟩ | ⟨hshort, hdoes⟩
  swap
  · exact Or.inr ⟨hshort.le, d, .bind_error hdoes _, hd, rfl⟩
  obtain ⟨d₂, hwrite, honly, hbytes⟩ := does_writeData hg hactive data hholds hlength
  obtain ⟨howned₂, hholds₂, hshows₂, hleft₂⟩ := howned.filled hg hm hholds hleft honly
  have hboth := hshows.trans hshows₂
  have hloc₂ := hloc.shows hboth
  have hsteps : ∀ {result d'}, Does g.totalSectors (publishFile (some g) path r fresh size >>= fun _ =>
      releaseChain (some g) (oldCluster r)) d₂ result d' → Does g.totalSectors (Fat32.storeFile g path data size r) d result d' :=
    fun h => .bind hallocate (.bind hwrite.attempt h)
  -- the new clusters are loose until an entry takes them: that of the file, or a new one
  cases hexists : r.existing with
  | true =>
    obtain ⟨old, d₃, hreplace, howned₃, hold, hput⟩ :=
      howned₂.replaceEntry hg hm hloc₂ hexists (hfile hexists) hholds₂ hlength hsize
    obtain ⟨d', hrelease, hsound, hshows'⟩ := howned₃.release hg hm hold
    have hpublish : Does g.totalSectors (publishFile (some g) path r fresh size) d₂ (.ok ()) d₃ := by
      unfold publishFile
      rw [if_pos hexists]
      exact hreplace
    refine Or.inl ⟨d', hsteps (.bind hpublish hrelease), hsound, ?_⟩
    rw [hshows'.tree, hput, hboth.tree, hbytes]
  | false =>
    have hres₂ : (tree g d₂).resolve path = .ok ns := by
      rw [hboth.tree]
      exact hres
    have hpublish : publishFile (some g) path r fresh size =
        Write.publishChain (some g) path r.parentCluster r.name (fileEntry r.name fresh size) fresh :=
      if_neg (by rw [hexists]; decide)
    have hold : oldCluster r = 0 := if_neg (by rw [hexists]; decide)
    rw [hpublish, hold] at hsteps
    rcases howned₂.publishNew hg hm hres₂ hloc₂ hexists hholds₂ hlength hsize with
      ⟨d', hdoes, hsound, hput⟩ | ⟨hfull, d', hdoes, hsound, hsame⟩
    · rw [hboth.tree, hbytes] at hput
      exact Or.inl ⟨d', hsteps (.bind hdoes (.pure _)), hsound, hput⟩
    · exact Or.inr ⟨hlength ▸ hleft₂.length hfull, d', hsteps (.bind_error hdoes _), hsound, hsame.trans hboth.tree⟩

theorem Owned.writeFile (hd : Owned g d []) (path : Option CString) (data : Option Bytes) (size : Nat) :
    Answers g d (.writeFile path data size) := by
  have hcall : (Fat32.tree g d).call (.writeFile path data size) = (Fat32.tree g d).writeFile path data size := rfl
  unfold Tree.writeFile at hcall
  by_cases hlarge : size > 0xFFFFFFFF
  · rw [if_pos hlarge] at hcall
    refine ⟨.error .unsupported, d, ?_, hd, .refused hcall rfl⟩
    show Does g.totalSectors (Write.writeFile (some g) path data size) d _ d
    unfold Write.writeFile
    rw [if_pos hlarge]
    exact .throw _
  by_cases hnull : size ≠ 0 ∧ data.isNone = true
  · rw [if_neg hlarge, if_pos hnull] at hcall
    refine ⟨.error .unsupported, d, ?_, hd, .refused hcall rfl⟩
    show Does g.totalSectors (Write.writeFile (some g) path data size) d _ d
    unfold Write.writeFile
    rw [if_neg hlarge, if_pos hnull]
    exact .throw _
  have hsize : size < 2 ^ 32 := by omega
  rw [if_neg hlarge, if_neg hnull] at hcall
  rcases hd.resolve hg hm path with ⟨ns, r, hres, hvalue, hloc⟩ | ⟨e, hres, hvalue⟩
  swap
  · rw [hres] at hcall
    refine ⟨.error e, d, ?_, hd, .refused hcall rfl⟩
    show Does g.totalSectors (Write.writeFile (some g) path data size) d _ d
    unfold Write.writeFile
    rw [if_neg hlarge, if_neg hnull]
    exact .bind_error (.of_value (reads_resolvePath path) hvalue) _
  have htree := hloc.tree hd
  rw [hres, ok_bind, htree] at hcall
  have hresolve := Does.of_value (reads_resolvePath path) hvalue
  by_cases hdirectory : r.existing = true ∧ isDirectoryEntry r.entry = true
  · rw [hdirectory.1, if_pos rfl, stored, if_pos hdirectory.2] at hcall
    refine ⟨.error .isDirectory, d, ?_, hd, .refused hcall rfl⟩
    show Does g.totalSectors (Write.writeFile (some g) path data size) d _ d
    unfold Write.writeFile
    rw [if_neg hlarge, if_neg hnull]
    refine .bind hresolve ?_
    rw [if_pos hdirectory]
    exact .throw _
  have hfile : r.existing = true → isDirectoryEntry r.entry = false := fun hexists =>
    Bool.eq_false_iff.mpr fun h => hdirectory ⟨hexists, h⟩
  have hput : (Fat32.tree g d).call (.writeFile path data size) =
      .ok ((Fat32.tree g d).put ns (some (.file ((List.range size).map (data.getD fun _ => 0))))) := by
    cases hexists : r.existing with
    | false =>
      rw [hexists] at hcall
      exact hcall
    | true =>
      rw [hexists, if_pos rfl, stored, hfile hexists] at hcall
      exact hcall
  have hsteps : ∀ {result d'}, Does g.totalSectors (Fat32.storeFile g path (data.getD fun _ => 0) size r) d result d' →
      Does g.totalSectors (Write.writeFile (some g) path data size) d result d' := by
    intro result d' hstore
    have hold : value (validateOld g r) d = .ok () := by
      unfold validateOld oldCluster
      split_ifs with hexists
      · obtain ⟨held, hstands, -⟩ := hloc.stands hd hexists
        obtain ⟨hzero, hlength⟩ := hstands.file (hfile hexists)
        exact value_validateFileChain hg hstands.holds hd.agree hzero hlength
      · rfl
    unfold Write.writeFile
    rw [if_neg hlarge, if_neg hnull]
    refine .bind hresolve ?_
    rw [if_neg hdirectory, geometryForWrite_bind, if_pos hm, clusterBytes_checked hg]
    dsimp only
    rw [fileClusterCount_eq hg hsize, pure_bind]
    exact .bind (.of_value (reads_validateOld r) hold) hstore
  rcases hd.storeFile hg hm hres hloc hfile (data.getD fun _ => 0) hsize with
    ⟨d', hdoes, hsound, htree'⟩ | ⟨hshort, d', hdoes, hsound, hsame⟩
  · exact ⟨.ok (), d', hsteps hdoes, hsound, .done (hput.trans (congrArg Except.ok htree'.symm))⟩
  · exact ⟨.error .noSpace, d', hsteps hdoes, hsound, .full hput hsame hshort⟩

theorem Owned.storeCopy (hd : Owned g d []) {source : ResolvedPath} {ns' : List ShortName} (hsource : Located g d ns' source)
    (hexists : source.existing = true) (hfile : isDirectoryEntry source.entry = false)
    (hres : (tree g d).resolve path = .ok ns) (hloc : Located g d ns r) (hmissing : r.existing = false) :
    (∃ d', Does g.totalSectors (Fat32.storeCopy g path source r) d (.ok ()) d' ∧ Owned g d' [] ∧
      tree g d' = (tree g d).put ns (some (stored g d source.entry).node)) ∨
    (freeClusters g d).length ≤ fileClusters g (le32 source.entry.byte 28) ∧
      ∃ d', Does g.totalSectors (Fat32.storeCopy g path source r) d (.error .noSpace) d' ∧ Owned g d' [] ∧
        tree g d' = tree g d := by
  have hactive := hg.mirrored hm
  obtain ⟨size, hsize⟩ : ∃ size, size = le32 source.entry.byte 28 := ⟨_, rfl⟩
  unfold Fat32.storeCopy
  rw [← hsize]
  rcases hd.allocate hg hm (fileClusters g size) with
    ⟨fresh, chain, d₁, hlength, hallocate, hholds, howned, hshows, hleft⟩ | ⟨hshort, hdoes⟩
  swap
  · exact Or.inr ⟨hshort.le, d, .bind_error hdoes _, hd, rfl⟩
  -- the source has the clusters and the bytes that it had
  have hsource₁ := hsource.shows hshows
  obtain ⟨l, hstands, hapart⟩ := hsource₁.stands howned hexists
  have hlength' := hstands.file_length hg hfile
  rw [← hsize] at hlength'
  have hstored : (stored g d source.entry).node = .file (fileBytes g d₁ (firstCluster source.entry) size) := by
    have htree := hsource₁.tree howned
    rw [hshows.tree, hsource.tree hd, hexists, if_pos rfl, if_pos rfl] at htree
    rw [Option.some.inj htree, stored_file hfile rfl hsize.symm]
    rfl
  obtain ⟨d₂, hcopy, honly, hbytes⟩ :=
    does_copyData hg hactive howned.agree hstands.holds hlength' hholds hlength hapart.symm
  obtain ⟨howned₂, hholds₂, hshows₂, hleft₂⟩ := howned.filled hg hm hholds hleft honly
  have hboth := hshows.trans hshows₂
  have hres₂ : (tree g d₂).resolve path = .ok ns := by
    rw [hboth.tree]
    exact hres
  have hlt : size < 2 ^ 32 := hsize ▸ le32_lt _ _
  rcases howned₂.publishNew hg hm hres₂ (hloc.shows hboth) hmissing hholds₂ hlength hlt with
    ⟨d', hdoes, hsound, hput⟩ | ⟨hfull, d', hdoes, hsound, hsame⟩
  · rw [hboth.tree, hbytes, ← hstored] at hput
    exact Or.inl ⟨d', .bind hallocate (.bind hcopy.attempt hdoes), hsound, hput⟩
  · exact Or.inr ⟨hlength ▸ hleft₂.length hfull, d', .bind hallocate (.bind hcopy.attempt hdoes), hsound, hsame.trans hboth.tree⟩

theorem Owned.copyFile (hd : Owned g d []) (source destination : Option CString) :
    Answers g d (.copyFile source destination) := by
  have hcall : (Fat32.tree g d).call (.copyFile source destination) = (Fat32.tree g d).copyFile source destination := rfl
  rcases hd.resolve hg hm source with ⟨ns', origin, hres', hvalue', hsource⟩ | ⟨e, hres', hvalue'⟩
  swap
  · rw [Tree.copyFile, hres'] at hcall
    exact ⟨.error e, d, .bind_error (.of_value (reads_resolvePath source) hvalue') _, hd, .refused hcall rfl⟩
  rw [Tree.copyFile, hres', ok_bind, hsource.tree hd] at hcall
  have hresolve := Does.of_value (reads_resolvePath source) hvalue'
  cases hexists : origin.existing with
  | false =>
    rw [hexists, if_neg Bool.false_ne_true] at hcall
    refine ⟨.error .notFound, d, .bind hresolve ?_, hd, .refused hcall rfl⟩
    rw [if_pos (by rw [hexists]; rfl)]
    exact .throw _
  | true =>
    rw [hexists, if_pos rfl] at hcall
    cases hfile : isDirectoryEntry origin.entry with
    | true =>
      rw [stored, hfile, if_pos rfl] at hcall
      refine ⟨.error .isDirectory, d, .bind hresolve ?_, hd, .refused hcall rfl⟩
      rw [if_neg (by rw [hexists]; decide), if_pos hfile]
      exact .throw _
    | false =>
      obtain ⟨contents, hcontents⟩ : ∃ contents, contents = fileBytes g d (firstCluster origin.entry) (le32 origin.entry.byte 28) :=
        ⟨_, rfl⟩
      have hstored : stored g d origin.entry = .file contents := by
        rw [hcontents]
        exact stored_file hfile rfl rfl
      rw [hstored] at hcall
      rcases hd.resolve hg hm destination with ⟨nt, target, hres, hvalue, hloc⟩ | ⟨e, hres, hvalue⟩
      swap
      · change _ = (Fat32.tree g d).resolve destination >>= _ at hcall
        rw [hres] at hcall
        refine ⟨.error e, d, .bind hresolve ?_, hd, .refused hcall rfl⟩
        rw [if_neg (by rw [hexists]; decide), if_neg (by rw [hfile]; decide)]
        exact .bind_error (.of_value (reads_resolvePath destination) hvalue) _
      change _ = (Fat32.tree g d).resolve destination >>= _ at hcall
      rw [hres, ok_bind, hloc.tree hd] at hcall
      have hresolve' := Does.of_value (reads_resolvePath destination) hvalue
      cases hmissing : target.existing with
      | true =>
        rw [hmissing, if_pos rfl] at hcall
        refine ⟨.error .alreadyExists, d, .bind hresolve ?_, hd, .refused hcall rfl⟩
        rw [if_neg (by rw [hexists]; decide), if_neg (by rw [hfile]; decide)]
        refine .bind hresolve' ?_
        rw [if_pos hmissing]
        exact .throw _
      | false =>
        rw [hmissing, if_neg Bool.false_ne_true] at hcall
        obtain ⟨held, hstands, -⟩ := hsource.stands hd hexists
        obtain ⟨hzero, hclusters⟩ := hstands.file hfile
        have hlength := hstands.file_length hg hfile
        have hsteps : ∀ {result d'}, Does g.totalSectors (Fat32.storeCopy g destination origin target) d result d' →
            Does g.totalSectors (Write.copyFile (some g) source destination) d result d' := by
          intro result d' hstore
          have hchain := value_validateFileChain hg hstands.holds hd.agree hzero hclusters
          have hfits : ¬ fileClusters g (le32 origin.entry.byte 28) > g.clusterCount := by
            rw [← hlength]
            rcases hstands.holds with ⟨-, rfl⟩ | hl
            · exact Nat.not_lt_zero _
            · exact Nat.not_lt.mpr hl.length_le
          refine .bind hresolve ?_
          rw [if_neg (by rw [hexists]; decide), if_neg (by rw [hfile]; decide)]
          refine .bind hresolve' ?_
          rw [if_neg (by rw [hmissing]; decide), geometryForWrite_bind, if_pos hm, clusterBytes_checked hg]
          dsimp only
          rw [fileClusterCount_eq hg (le32_lt _ _), pure_bind, if_neg hfits]
          exact .bind (.of_value (reads_validateFileChain _ _) hchain) hstore
        rcases hd.storeCopy hg hm hsource hexists hfile hres hloc hmissing with
          ⟨d', hdoes, hsound, hput⟩ | ⟨hshort, d', hdoes, hsound, hsame⟩
        · rw [hstored] at hput
          exact ⟨.ok (), d', hsteps hdoes, hsound, .done (hcall.trans (congrArg Except.ok hput.symm))⟩
        · refine ⟨.error .noSpace, d', hsteps hdoes, hsound, .full hcall hsame ?_⟩
          have htree := hsource.tree hd
          rw [hexists, if_pos rfl, hstored] at htree
          unfold Tree.clusters
          dsimp only
          rw [hres']
          dsimp only
          rw [htree]
          show _ ≤ fileClusters g contents.length
          rw [hcontents, length_fileBytes hg (hg.mirrored hm) hstands.holds hlength]
          exact hshort

end Files

end Linux95.Fat32
