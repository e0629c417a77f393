import Linux95.Fat32.EntryFields

/-! The operations on a drive that answers every request: each of them keeps the volume sound and does to the
tree what it is for, or refuses and leaves the tree as it was. -/

namespace Linux95.Fat32
open Base Storage Write

def Tree.clusters (g : BpbGeometry) (t : Tree) : Op → Nat
  | .touch _ | .remove _ | .move _ _ => 0
  | .writeFile _ _ size => fileClusters g size
  | .mkdir _ => 1
  | .copyFile source _ =>
    match t.resolve source with
    | .error _ => 0
    | .ok ns =>
      match t ns with
      | some (.file contents) => fileClusters g contents.length
      | _ => 0

/-- What comes of a call. `hidden`: the slots of a directory that are no objects keep it from being removed. -/
inductive Outcome (g : BpbGeometry) (d d' : Disk) : Op → Except Status Unit → Prop
  | done {op : Op} (answer : (tree g d).call op = .ok (tree g d')) : Outcome g d d' op (.ok ())
  | refused {op : Op} {e : Status} (answer : (tree g d).call op = .error e) (same : d' = d) : Outcome g d d' op (.error e)
  | full {op : Op} {t : Tree} (answer : (tree g d).call op = .ok t) (same : tree g d' = tree g d)
      (short : (freeClusters g d).length ≤ (tree g d).clusters g op) : Outcome g d d' op (.error .noSpace)
  | hidden {path : Option CString} {ns : List ShortName} {c : Nat} {slot : DirectorySlot}
      (answer : (tree g d).resolve path = .ok ns) (found : (naming g d).walk g.rootCluster ns = some c)
      (used : slot ∈ usedSlots g d c) (kept : idle d slot = false ∧ ordinary (entryAt d slot) = false) (same : d' = d) :
      Outcome g d d' (.remove path) (.error .directoryNotEmpty)

def Answers (g : BpbGeometry) (d : Disk) (op : Op) : Prop :=
  ∃ r d', Does g.totalSectors (op.call (some g)) d r d' ∧ Owned g d' [] ∧ Outcome g d d' op r

section Located
variable {g : BpbGeometry} {n : Nat} (hg : g.Sound n) {d d' : Disk} {loose held l : List Nat} {ns : List ShortName} {r : ResolvedPath}

theorem stored_file {e : Entry} {first size : Nat} (hfile : isDirectoryEntry e = false) (hfirst : firstCluster e = first)
    (hsize : le32 e.byte 28 = size) : stored g d e = .file (fileBytes g d first size) := by
  unfold stored
  rw [hfile, hfirst, hsize]
  rfl

theorem Located.shows (h : Located g d ns r) (hshows : Shows g d d') : Located g d' ns r := by
  obtain ⟨before, hns, hwalk⟩ := h.path
  have halike := hshows.alike r.parentCluster (walk_directory hwalk)
  refine ⟨⟨before, hns, hshows.walk.trans hwalk⟩, h.encoded, fun hexists => ?_, fun hmissing => ?_⟩
  · obtain ⟨hslot, hentry⟩ := h.found hexists
    exact ⟨(halike.lookup r.name).trans hslot, hentry.trans (halike.entries r.slot (lookup_mem hslot).1).symm⟩
  · exact (halike.lookup r.name).trans (h.missing hmissing)

theorem Located.parent (h : Located g d ns r) : Directory g d r.parentCluster := by
  obtain ⟨before, -, hwalk⟩ := h.path
  exact walk_directory hwalk

theorem Located.object (h : Located g d ns r) (hexists : r.existing = true) :
    r.slot ∈ objectSlots g d r.parentCluster ∧ r.entry = entryAt d r.slot := by
  obtain ⟨text, henc⟩ := h.encoded
  obtain ⟨hslot, hentry⟩ := h.found hexists
  exact ⟨lookup_object henc hslot, hentry⟩

theorem Located.name (hd : Owned g d loose) (h : Located g d ns r) (hexists : r.existing = true) : r.entry.name = r.name := by
  obtain ⟨text, henc⟩ := h.encoded
  obtain ⟨hslot, hentry⟩ := h.found hexists
  rw [hentry]
  exact ((hd.lookup_iff h.parent henc).mp hslot).2

theorem Located.stands (hd : Owned g d loose) (h : Located g d ns r) (hexists : r.existing = true) :
    ∃ held, Stands g d r.entry held ∧ List.Disjoint loose held := by
  obtain ⟨hslot, hentry⟩ := h.object hexists
  obtain ⟨⟨text, henc⟩, hstored⟩ := hd.encoded r.parentCluster r.slot h.parent hslot
  rw [← hentry] at henc hstored
  cases hdirectory : isDirectoryEntry r.entry with
  | true =>
    have hchild : Directory g d (firstCluster (entryAt d r.slot)) := .child h.parent hslot (hentry ▸ hdirectory)
    rw [← hentry] at hchild
    obtain ⟨l, hl⟩ := hd.directories _ hchild
    refine ⟨l, stands_directory henc hdirectory rfl hstored hl, ?_⟩
    have hobject := Object.entry h.parent hslot
    rw [← hentry] at hobject
    exact (hd.apart _ _ l hobject hl).symm
  | false =>
    obtain ⟨hzero, hchain⟩ := hd.files r.parentCluster r.slot h.parent hslot (hentry ▸ hdirectory)
    rw [← hentry] at hzero hchain
    by_cases hfirst : firstCluster r.entry = 0
    · refine ⟨[], ⟨Or.inl ⟨hfirst, rfl⟩, fun h => ?_, fun _ => ⟨hzero, fun h => absurd hfirst h⟩, ⟨text, henc⟩, hstored⟩,
        List.disjoint_nil_right _⟩
      rw [hdirectory] at h
      cases h
    · obtain ⟨l, hl, hlength⟩ := hchain hfirst
      refine ⟨l, ⟨Or.inr hl, fun _ => hfirst, fun _ => ⟨hzero, fun _ => hlength⟩, ⟨text, henc⟩, hstored⟩, ?_⟩
      have hobject := Object.entry h.parent hslot
      rw [← hentry] at hobject
      exact (hd.apart _ _ l hobject hl).symm

end Located

section Entries
variable {g : BpbGeometry} {n : Nat} (hg : g.Sound n) (hm : g.mirroringEnabled = true) {d : Disk} {held : List Nat}
  {ns : List ShortName} {r : ResolvedPath} {entry : Entry} {path : Option CString}
include hg hm

theorem Owned.publishAt (hd : Owned g d held) (hloc : Located g d ns r) (hmissing : r.existing = false)
    (hattr : entry.byte 11 &&& 0x08 = 0) (hstands : Stands g d (setName entry r.name) held)
    (hempty : isDirectoryEntry (setName entry r.name) = true → objectSlots g d (firstCluster (setName entry r.name)) = []) :
    (∃ slot d', Does g.totalSectors (createDirectoryEntry (some g) r.parentCluster (shortComponent r.name) entry) d
        (.ok (.ok slot)) d' ∧ Owned g d' [] ∧ tree g d' = (tree g d).put ns (some (stored g d (setName entry r.name)).node)) ∨
    freeClusters g d = [] ∧ Does g.totalSectors (createDirectoryEntry (some g) r.parentCluster (shortComponent r.name) entry) d
        (.ok (.error (.noSpace, true))) d := by
  obtain ⟨before, rfl, hwalk⟩ := hloc.path
  obtain ⟨text, henc⟩ := hloc.encoded
  exact hd.publish hg hm hwalk (encodeComponent_shortComponent henc) henc (hloc.missing hmissing) hattr hstands hempty

theorem Owned.publishChain (hd : Owned g d held) (hres : (tree g d).resolve path = .ok ns) (hloc : Located g d ns r)
    (hmissing : r.existing = false) {fresh : Nat} (hholds : Holds g d fresh held) (hattr : entry.byte 11 &&& 0x08 = 0)
    (hstands : Stands g d (setName entry r.name) held)
    (hempty : isDirectoryEntry (setName entry r.name) = true → objectSlots g d (firstCluster (setName entry r.name)) = []) :
    (∃ d', Does g.totalSectors (publishChain (some g) path r.parentCluster r.name entry fresh) d (.ok ()) d' ∧
      Owned g d' [] ∧ tree g d' = (tree g d).put ns (some (stored g d (setName entry r.name)).node)) ∨
    freeClusters g d = [] ∧ ∃ d', Does g.totalSectors (publishChain (some g) path r.parentCluster r.name entry fresh) d
      (.error .noSpace) d' ∧ Owned g d' [] ∧ tree g d' = tree g d := by
  -- without room for the entry the clusters are given back
  rcases hd.publishAt hg hm hloc hmissing hattr hstands hempty with ⟨slot, d', hdoes, howned, htree⟩ | ⟨hfull, hdoes⟩
  · exact Or.inl ⟨d', .bind hdoes (.pure _), howned, htree⟩
  right
  refine ⟨hfull, ?_⟩
  -- the path still leads nowhere
  obtain ⟨observed, hvalue, hobserved⟩ : ∃ observed, value (resolvePath (some g) path) d = .ok observed ∧
      observed.existing = false := by
    rcases hd.resolve hg hm path with ⟨ns', observed, hres', hvalue, hloc'⟩ | ⟨e, herror, -⟩
    · obtain rfl := Except.ok.inj (hres.symm.trans hres')
      refine ⟨observed, hvalue, ?_⟩
      have htree := (hloc.tree hd).symm.trans (hloc'.tree hd)
      rw [hmissing] at htree
      cases hexists : observed.existing with
      | false => rfl
      | true =>
        rw [hexists] at htree
        cases htree
    · rw [hres] at herror
      cases herror
  have hagain := (Does.of_value (reads_resolvePath path) hvalue).attempt
  unfold Write.publishChain
  by_cases hfresh : fresh = 0
  · subst hfresh
    have hheld : held = [] := by
      rcases hholds with ⟨-, hnil⟩ | hl
      · exact hnil
      · exact absurd rfl hl.first_ne
    rw [hheld] at hd
    refine ⟨d, .bind hdoes (.bind hagain ?_), hd, rfl⟩
    dsimp only
    rw [if_pos (Or.inr rfl)]
    exact .throw _
  · obtain ⟨d', hfree, howned, hshows⟩ := hd.free hg hm hholds
    refine ⟨d', .bind hdoes (.bind hagain ?_), howned, hshows.tree⟩
    dsimp only
    rw [if_neg (by simp [hobserved, hfresh])]
    exact .bind hfree.attempt (.throw _)

theorem Owned.touch (hd : Owned g d []) (path : Option CString) : Answers g d (.touch path) := by
  rcases hd.resolve hg hm path with ⟨ns, r, hres, hvalue, hloc⟩ | ⟨e, hres, hvalue⟩
  swap
  · refine ⟨.error e, d, .bind_error (.of_value (reads_resolvePath path) hvalue) _, hd, .refused ?_ rfl⟩
    show (Fat32.tree g d).touch path = _
    unfold Tree.touch
    rw [hres]
    rfl
  have hcall : (Fat32.tree g d).call (.touch path) = (Fat32.tree g d).touch path := rfl
  have hresolve := Does.of_value (reads_resolvePath path) hvalue
  rw [Tree.touch, hres, ok_bind, hloc.tree hd] at hcall
  cases hexists : r.existing with
  | true =>
    rw [hexists, if_pos rfl, stored] at hcall
    cases hdirectory : isDirectoryEntry r.entry with
    | true =>
      rw [hdirectory, if_pos rfl] at hcall
      refine ⟨.error .isDirectory, d, .bind hresolve ?_, hd, .refused hcall rfl⟩
      rw [if_pos hexists, if_pos hdirectory]
      exact .throw _
    | false =>
      rw [hdirectory, if_neg Bool.false_ne_true] at hcall
      refine ⟨.ok (), d, .bind hresolve ?_, hd, .done hcall⟩
      rw [if_pos hexists, if_neg (by rw [hdirectory]; decide)]
      exact .pure _
  | false =>
    rw [hexists, if_neg Bool.false_ne_true] at hcall
    obtain ⟨text, henc⟩ := hloc.encoded
    have hname : (setName (Entry.zero.setByte 11 0x20) r.name).name = r.name := name_setName
    obtain ⟨hfile, hattr⟩ := attribute_file (e := Entry.zero.setByte 11 0x20) rfl
    have hfile' := (setName_directory (Entry.zero.setByte 11 0x20) r.name).trans hfile
    obtain ⟨hcluster, hsize⟩ := setName_cluster (Entry.zero.setByte 11 0x20) r.name
    have hstands : Stands g d (setName (Entry.zero.setByte 11 0x20) r.name) [] := by
      refine stands_file hg (hname.symm ▸ henc) hfile' hcluster (setName_stored _ _) hsize (Or.inl ⟨rfl, rfl⟩) ?_
      exact ((fileClusters_zero_iff hg).mpr rfl).symm
    rcases hd.publishAt hg hm hloc hexists hattr hstands (fun h => by rw [hfile'] at h; cases h) with
      ⟨slot, d', hdoes, howned, hput⟩ | ⟨hfull, hdoes⟩
    · have hnode : stored g d (setName (Entry.zero.setByte 11 0x20) r.name) = .file [] :=
        stored_file hfile' hcluster hsize
      rw [hnode] at hput
      refine ⟨.ok (), d', .bind hresolve ?_, howned, .done (hcall.trans (congrArg Except.ok hput.symm))⟩
      rw [if_neg (by rw [hexists]; decide)]
      exact .bind hdoes (.pure _)
    · refine ⟨.error .noSpace, d, .bind hresolve ?_, hd, .full hcall rfl ?_⟩
      · rw [if_neg (by rw [hexists]; decide)]
        exact .bind hdoes (.throw _)
      · rw [hfull]
        exact le_refl 0

theorem Owned.filled {d' d'' : Disk} {first : Nat} (hd : Owned g d' held) (hholds : Holds g d' first held)
    (hleft : Left g d d' held) (honly : OnlyData g held d' d'') :
    Owned g d'' held ∧ Holds g d'' first held ∧ Shows g d' d'' ∧ Left g d d'' held := by
  have hvalid : ∀ x ∈ held, validCluster g x = true := fun x hx => (hd.busy x hx).1
  have howned := hd.onlyData hg honly
  refine ⟨howned, ?_, hd.shows hg (hg.mirrored hm) howned (keepsOwned_onlyData hg hvalid honly), fun x hx => ?_⟩
  · exact hholds.imp id fun hl => hl.congr fun x _ => honly.link hg hvalid x
  · refine (hleft x hx).imp id fun hfree => ⟨hfree.1, ?_⟩
    have hsame := hfree.2
    unfold isFree at hsame ⊢
    rw [honly.fatEntry hg hvalid hfree.1 hg.fatCountPos]
    exact hsame

theorem Owned.mkdir (hd : Owned g d []) (path : Option CString) : Answers g d (.mkdir path) := by
  rcases hd.resolve hg hm path with ⟨ns, r, hres, hvalue, hloc⟩ | ⟨e, hres, hvalue⟩
  swap
  · refine ⟨.error e, d, .bind_error (.of_value (reads_resolvePath path) hvalue) _, hd, .refused ?_ rfl⟩
    show (Fat32.tree g d).mkdir path = _
    unfold Tree.mkdir
    rw [hres]
    rfl
  have hcall : (Fat32.tree g d).call (.mkdir path) = (Fat32.tree g d).mkdir path := rfl
  have hresolve := Does.of_value (reads_resolvePath path) hvalue
  rw [Tree.mkdir, hres, ok_bind, hloc.tree hd] at hcall
  cases hexists : r.existing with
  | true =>
    rw [hexists, if_pos rfl] at hcall
    refine ⟨.error .alreadyExists, d, .bind hresolve ?_, hd, .refused hcall rfl⟩
    rw [if_pos hexists]
    exact .throw _
  | false =>
    rw [hexists, if_neg Bool.false_ne_true] at hcall
    rcases hd.allocate hg hm 1 with ⟨fresh, chain, d₁, hlength, hallocate, hholds, howned, hshows, hleft⟩ | ⟨hshort, hdoes⟩
    swap
    · refine ⟨.error .noSpace, d, .bind hresolve ?_, hd, .full hcall rfl (Nat.le_of_lt hshort)⟩
      rw [if_neg (by rw [hexists]; decide), geometryForWrite_bind, if_pos hm]
      exact .bind_error hdoes _
    obtain ⟨x, rfl⟩ := List.length_eq_one_iff.mp hlength
    have hl : Chain g d₁ fresh [x] := hholds.resolve_left fun h => absurd h.2 (List.cons_ne_nil x [])
    obtain rfl : fresh = x := List.mem_singleton.mp hl.head_mem
    obtain ⟨d₂, hprepare, honly, hidle⟩ := does_prepareDirectory hg r.parentCluster hl
    obtain ⟨howned₂, hholds₂, hshows₂, hleft₂⟩ := howned.filled hg hm hholds hleft honly
    have hboth := hshows.trans hshows₂
    have hloc₂ := hloc.shows hboth
    have hl₂ : Chain g d₂ fresh [fresh] := hholds₂.chain hl.first_ne
    obtain ⟨text, henc⟩ := hloc.encoded
    obtain ⟨hcluster, hstored, hattribute⟩ := directoryEntry_fields (hholds.lt hg)
    obtain ⟨hdirectory, hattr⟩ := attribute_directory hattribute
    have hname : (setName (setFirstCluster (Entry.zero.setByte 11 0x10) fresh) r.name).name = r.name := name_setName
    have hdirectory' := (setName_directory (setFirstCluster (Entry.zero.setByte 11 0x10) fresh) r.name).trans hdirectory
    have hcluster' := (setName_cluster (setFirstCluster (Entry.zero.setByte 11 0x10) fresh) r.name).1.trans hcluster
    have hstands : Stands g d₂ (setName (setFirstCluster (Entry.zero.setByte 11 0x10) fresh) r.name) [fresh] :=
      stands_directory (hname.symm ▸ henc) hdirectory' hcluster' ((setName_stored _ _).trans hstored) hl₂
    have hres₂ : (Fat32.tree g d₂).resolve path = .ok ns := by
      rw [hboth.tree]
      exact hres
    have hnode : (stored g d₂ (setName (setFirstCluster (Entry.zero.setByte 11 0x10) fresh) r.name)).node = .directory := by
      unfold stored
      rw [if_pos hdirectory']
      rfl
    have hsteps : ∀ {result d'}, Does g.totalSectors (Write.publishChain (some g) path r.parentCluster r.name
        (setFirstCluster (Entry.zero.setByte 11 0x10) fresh) fresh) d₂ result d' →
        Does g.totalSectors (Write.mkdir (some g) path) d result d' := by
      intro result d' hpublish
      refine .bind hresolve ?_
      rw [if_neg (by rw [hexists]; decide), geometryForWrite_bind, if_pos hm]
      exact .bind hallocate (.bind hprepare.attempt hpublish)
    rcases howned₂.publishChain hg hm hres₂ hloc₂ hexists hholds₂ hattr hstands
        (fun _ => by rw [hcluster']; exact objectSlots_idle hidle) with ⟨d', hdoes, hsound, hput⟩ | ⟨hfull, d', hdoes, hsound, hsame⟩
    · rw [hnode, hboth.tree] at hput
      exact ⟨.ok (), d', hsteps hdoes, hsound, .done (hcall.trans (congrArg Except.ok hput.symm))⟩
    · exact ⟨.error .noSpace, d', hsteps hdoes, hsound, .full hcall (hsame.trans hboth.tree) (hleft₂.length hfull)⟩

end Entries

end Linux95.Fat32
