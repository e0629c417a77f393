import Linux95.Fat32.FileCalls

/-! `remove` and `move`: an entry is marked deleted, or put into another slot, and its clusters follow it. -/

namespace Linux95.Fat32
open Base Storage Write

section Slots
variable {g : BpbGeometry} {d d' : Disk} {slot slot' : DirectorySlot} {e e' : Entry} {slots : List DirectorySlot}

theorem putSlot_comm (hne : slot.lba ≠ slot'.lba) :
    putSlot (putSlot d slot e) slot' e' = putSlot (putSlot d slot' e') slot e := by
  unfold putSlot
  rw [Function.update_of_ne hne.symm, Function.update_of_ne hne, Function.update_comm hne]

theorem putSlot_idem : putSlot (putSlot d slot e) slot e' = putSlot d slot e' := by
  unfold putSlot
  rw [Function.update_self, Function.update_idem]
  congr 1
  funext j
  unfold Sector.setSlot
  split_ifs <;> rfl

theorem Vacant.congr (h : Vacant d slots slot) (hsame : ∀ x ∈ slots, entryAt d' x = entryAt d x) : Vacant d' slots slot := by
  obtain ⟨pre, post, rfl, hused, hvacant⟩ := h
  refine ⟨pre, post, rfl, fun x hx => ?_, hvacant.imp (fun hdeleted => ?_) ?_⟩
  · rw [slotUsed_congr (hsame x (List.mem_append_left _ hx))]
    exact hused x hx
  · unfold slotDeleted
    rw [hsame slot (List.mem_append_right pre List.mem_cons_self)]
    exact hdeleted
  · rintro ⟨hend, marker, rest, rfl, hmarker⟩
    rw [← slotUsed_congr (hsame slot (List.mem_append_right pre List.mem_cons_self))] at hend
    rw [← slotUsed_congr (hsame marker (List.mem_append_right pre (List.mem_cons_of_mem slot List.mem_cons_self)))] at hmarker
    exact ⟨hend, marker, rest, rfl, hmarker⟩

theorem vacant_deleted {p : Nat} {lp : List Nat} (hchain : Chain g d p lp) (hslot : slot ∈ usedSlots g d p) :
    Vacant (deleteSlot d slot) (dirSlots g lp) slot := by
  have haligned : ∀ x ∈ dirSlots g lp, Aligned x := fun x hx => aligned_of_mem hx
  have hmem := used_dirSlots hchain hslot
  rw [usedSlots_chain hchain] at hslot
  obtain ⟨pre, post, hsplit⟩ := List.append_of_mem hslot
  have hall : inUse d (dirSlots g lp) ++ (dirSlots g lp).dropWhile (slotUsed d) = dirSlots g lp :=
    List.takeWhile_append_dropWhile
  rw [hsplit, List.append_assoc, List.cons_append] at hall
  have hself : entryAt (deleteSlot d slot) slot = (entryAt d slot).setByte 0 0xE5 := entryAt_putSlot_self (haligned slot hmem) _
  refine ⟨pre, _, hall.symm, fun x hx => ?_, Or.inl ?_⟩
  · by_cases heq : x = slot
    · unfold slotUsed
      rw [heq, hself]
      rfl
    · have hin : x ∈ inUse d (dirSlots g lp) := hsplit ▸ List.mem_append_left _ hx
      have hentry : entryAt (deleteSlot d slot) x = entryAt d x :=
        entryAt_putSlot_ne (haligned slot hmem) (haligned x (mem_inUse hin).1) heq _
      rw [slotUsed_congr hentry]
      exact (mem_inUse hin).2
  · unfold slotDeleted
    rw [hself]
    rfl

end Slots

section Withdrawals
variable {g : BpbGeometry} {n : Nat} (hg : g.Sound n) (hm : g.mirroringEnabled = true) {d : Disk} {held : List Nat} {p : Nat}
  {q : List ShortName} {s : DirectorySlot}
include hg hm

theorem Owned.withdraw (hd : Owned g d []) (hq : (naming g d).walk g.rootCluster q = some p) (hslot : s ∈ objectSlots g d p)
    (hholds : Holds g d (firstCluster (entryAt d s)) held)
    (hempty : isDirectoryEntry (entryAt d s) = true → objectSlots g d (firstCluster (entryAt d s)) = []) :
    Edited g d (deleteSlot d s) p (some s) none [] ∧ Owned g (deleteSlot d s) held ∧
      (naming g d).Sets (naming g (deleteSlot d s)) p (entryAt d s).name none ∧
      tree g (deleteSlot d s) = (tree g d).put (q ++ [(entryAt d s).name]) none := by
  have hp := walk_directory hq
  obtain ⟨lp, hchain⟩ := hd.directories p hp
  obtain ⟨hedited, howned⟩ := hd.deleted hg hp hchain hslot hholds hempty
  have hsets := hedited.sets hg (hg.mirrored hm) hd howned (fun x hx => by rw [← Option.some.inj hx]; exact ⟨hslot, rfl⟩)
    (fun h => by cases h) (fun x hx => by cases hx)
  refine ⟨hedited, howned, hsets, tree_put hd.unique hq hsets (fun v m hv hchild => ?_) fun v m hv => by cases hv⟩
  obtain ⟨x, hx, hname, rfl⟩ := find_mem hv
  obtain rfl := hd.distinct p x s hp hx hslot hname
  obtain ⟨hdirectory, rfl⟩ := stored_child.mp hchild
  exact hempty hdirectory

theorem Owned.moved (hd : Owned g d []) (hq : (naming g d).walk g.rootCluster q = some p) (hslot : s ∈ objectSlots g d p)
    (hfile : isDirectoryEntry (entryAt d s) = false) {p' : Nat} {q' : List ShortName} {lp : List Nat}
    (hq' : (naming g d).walk g.rootCluster q' = some p') (hchain : Chain g d p' lp) {slot : DirectorySlot}
    (hvacant : Vacant (deleteSlot d s) (dirSlots g lp) slot) {text : CString} {name : ShortName}
    (henc : encodeShortName text = some name) (hmiss : lookup g d p' name = none) :
    Owned g (putSlot (deleteSlot d s) slot (setName (entryAt d s) name)) [] ∧
      tree g (putSlot (deleteSlot d s) slot (setName (entryAt d s) name)) =
        ((tree g d).put (q ++ [(entryAt d s).name]) none).put (q' ++ [name]) (some (stored g d (entryAt d s)).node) := by
  have hactive := hg.mirrored hm
  have hp := walk_directory hq
  obtain ⟨lp₀, hchain₀⟩ := hd.directories p hp
  have hopen : Open g d p lp₀ s := Or.inr (mem_objectSlots.mp hslot).1
  obtain ⟨hzero, hlinked⟩ := hd.files p s hp hslot hfile
  obtain ⟨held, hholds, hlength⟩ : ∃ held, Holds g d (firstCluster (entryAt d s)) held ∧
      (firstCluster (entryAt d s) ≠ 0 → held.length = fileClusters g (le32 (entryAt d s).byte 28)) := by
    by_cases hfirst : firstCluster (entryAt d s) = 0
    · exact ⟨[], Or.inl ⟨hfirst, rfl⟩, fun h => absurd hfirst h⟩
    · obtain ⟨l, hl, hlength⟩ := hlinked hfirst
      exact ⟨l, Or.inr hl, fun _ => hlength⟩
  obtain ⟨hedited, howned, hsets, htree⟩ := hd.withdraw hg hm hq hslot hholds (fun h => by rw [hfile] at h; cases h)
  have hq₁ : (naming g (deleteSlot d s)).walk g.rootCluster q' = some p' := by
    refine hsets.walk_kept (fun v hv => ?_) hq'
    obtain ⟨x, hx, hname, rfl⟩ := find_mem hv
    obtain rfl := hd.distinct p x s hp hx hslot hname
    show (stored g d (entryAt d x)).child = none
    rw [stored_file hfile rfl rfl]
    rfl
  obtain ⟨hcluster, hsize⟩ := setName_cluster (entryAt d s) name
  have hfile' : isDirectoryEntry (setName (entryAt d s) name) = false := (setName_directory _ name).trans hfile
  have hholds₁ : Holds g (deleteSlot d s) (firstCluster (setName (entryAt d s) name)) held := by
    rw [hcluster]
    exact hholds.imp id (put_chain hg hchain₀ hopen)
  have hstands : Stands g (deleteSlot d s) (setName (entryAt d s) name) held := by
    refine ⟨hholds₁, fun h => ?_, fun _ => ?_, ⟨text, ?_⟩, ?_⟩
    · rw [hfile'] at h
      cases h
    · rw [hcluster, hsize]
      exact ⟨hzero, hlength⟩
    · rw [name_setName]
      exact henc
    · rw [setName_stored, hcluster]
      exact (hd.encoded p s hp hslot).2
  have hattr := (ordinary_byte (List.mem_filter.mp hslot).2).2
  have hnames : ∀ x ∈ objectSlots g (deleteSlot d s) p', (entryAt (deleteSlot d s) x).name ≠ (setName (entryAt d s) name).name := by
    intro x hx
    obtain ⟨-, ⟨hmem, -, hentry⟩ | ⟨-, hnew⟩⟩ := hedited.slot_cases (walk_directory hq₁) hx
    · rw [hentry, name_setName]
      exact hd.lookup_none (walk_directory hq') henc hmiss hmem
    · cases hnew
  obtain ⟨hsound, hput⟩ := howned.insert hg hactive hq₁ (put_chain hg hchain₀ hopen hchain) hvacant hstands
    (ordinary_setName henc hattr) hnames (fun h => by rw [hfile'] at h; cases h)
  refine ⟨hsound, ?_⟩
  rw [hput, htree, name_setName, stored_file hfile' hcluster hsize, hedited.fileBytes_kept hg hactive hd hp hslot hfile,
    stored_file hfile rfl rfl]

end Withdrawals

section Remove
variable {g : BpbGeometry} {n : Nat} (hg : g.Sound n) (hm : g.mirroringEnabled = true) {d : Disk} {ns : List ShortName}
  {r : ResolvedPath} {path : Option CString}

theorem Located.walk {loose : List Nat} (hd : Owned g d loose) (h : Located g d ns r) (hexists : r.existing = true)
    (hdirectory : isDirectoryEntry r.entry = true) : (naming g d).walk g.rootCluster ns = some (firstCluster r.entry) := by
  obtain ⟨before, rfl, hwalk⟩ := h.path
  obtain ⟨text, henc⟩ := h.encoded
  obtain ⟨hslot, hentry⟩ := h.found hexists
  rw [Naming.walk_concat, hwalk, Option.bind_some, hd.find_lookup h.parent henc, hslot]
  rw [hentry] at hdirectory ⊢
  exact stored_child.mpr ⟨hdirectory, rfl⟩

include hg hm

theorem Owned.removes (hd : Owned g d []) (hvalue : value (resolvePath (some g) path) d = .ok r) (hloc : Located g d ns r)
    (hexists : r.existing = true) (hcheck : value (checkRemovable g r.entry (firstCluster r.entry)) d = .ok ())
    (hempty : isDirectoryEntry r.entry = true → objectSlots g d (firstCluster r.entry) = []) :
    ∃ d', Does g.totalSectors (Write.remove (some g) path) d (.ok ()) d' ∧ Owned g d' [] ∧ tree g d' = (tree g d).put ns none := by
  obtain ⟨before, rfl, hwalk⟩ := hloc.path
  obtain ⟨hslot, hentry⟩ := hloc.object hexists
  obtain ⟨held, hstands, -⟩ := hloc.stands hd hexists
  obtain ⟨lp, hchain⟩ := hd.directories _ hloc.parent
  have hopen : Open g d r.parentCluster lp r.slot := Or.inr (mem_objectSlots.mp hslot).1
  have hname := hloc.name hd hexists
  rw [hentry] at hempty hname
  have hholds := hstands.holds
  rw [hentry] at hholds
  -- without its entry the object is gone from the tree, and its clusters are loose until they are freed
  obtain ⟨-, howned, -, htree⟩ := hd.withdraw hg hm hwalk hslot hholds hempty
  obtain ⟨d', hrelease, hsound, hshows⟩ := howned.release hg hm (hholds.imp id (put_chain hg hchain hopen))
  obtain ⟨hvalid, -, hlba⟩ := slot_bounds hg hchain.valid (hopen.mem hchain)
  have hdelete := does_deleteDirectoryEntry hm hvalid hlba (mem_objectSlots.mp hslot).2.1
  refine ⟨d', .bind (.of_value (reads_resolvePath path) hvalue) ?_, hsound, ?_⟩
  · rw [if_neg (by rw [hexists]; decide), geometryForWrite_bind, if_pos hm]
    rw [← hentry] at hrelease
    exact .bind (.of_value (reads_checkRemovable _ _) hcheck) (.bind hdelete hrelease)
  · rw [hshows.tree, htree, hname]

theorem Owned.remove (hd : Owned g d []) (path : Option CString) : Answers g d (.remove path) := by
  have hcall : (Fat32.tree g d).call (.remove path) = (Fat32.tree g d).remove path := rfl
  rcases hd.resolve hg hm path with ⟨ns, r, hres, hvalue, hloc⟩ | ⟨e, hres, hvalue⟩
  swap
  · rw [Tree.remove, hres] at hcall
    exact ⟨.error e, d, .bind_error (.of_value (reads_resolvePath path) hvalue) _, hd, .refused hcall rfl⟩
  have hresolve := Does.of_value (reads_resolvePath path) hvalue
  have htree := hloc.tree hd
  cases hexists : r.existing with
  | false =>
    rw [hexists, if_neg Bool.false_ne_true] at htree
    rw [Tree.remove, hres, ok_bind, htree] at hcall
    refine ⟨.error .notFound, d, .bind hresolve ?_, hd, .refused hcall rfl⟩
    rw [if_pos (by rw [hexists]; rfl)]
    exact .throw _
  | true =>
    obtain ⟨held, hstands, -⟩ := hloc.stands hd hexists
    rw [hexists, if_pos rfl, stored] at htree
    cases hdirectory : isDirectoryEntry r.entry with
    | false =>
      rw [hdirectory, if_neg Bool.false_ne_true] at htree
      rw [Tree.remove, hres, ok_bind, htree] at hcall
      obtain ⟨hzero, hlength⟩ := hstands.file hdirectory
      have hcheck : value (checkRemovable g r.entry (firstCluster r.entry)) d = .ok () := by
        unfold checkRemovable
        rw [if_neg (by rw [hdirectory]; decide)]
        exact value_validateFileChain hg hstands.holds hd.agree hzero hlength
      obtain ⟨d', hdoes, hsound, hput⟩ := hd.removes hg hm hvalue hloc hexists hcheck
        (fun h => by rw [hdirectory] at h; cases h)
      exact ⟨.ok (), d', hdoes, hsound, .done (hcall.trans (congrArg Except.ok hput.symm))⟩
    | true =>
      rw [hdirectory, if_pos rfl] at htree
      have hwalk := hloc.walk hd hexists hdirectory
      have hl := hstands.holds.chain (hstands.directory hdirectory)
      have hcheck : value (checkRemovable g r.entry (firstCluster r.entry)) d =
          if (usedSlots g d (firstCluster r.entry)).all (idle d) then .ok () else .error .directoryNotEmpty := by
        unfold checkRemovable
        rw [if_pos hdirectory]
        exact value_directoryIsEmpty hg hl fun x hx => hd.agree x (hl.valid x hx)
      by_cases hidle : (usedSlots g d (firstCluster r.entry)).all (idle d) = true
      · rw [if_pos hidle] at hcheck
        have hempty := objectSlots_idle hidle
        have hnone : ¬ (Fat32.tree g d).Occupied ns := by
          rintro ⟨name, hname⟩
          rw [tree_concat hwalk, find_none_iff.mpr fun s hs => by rw [hempty] at hs; cases hs] at hname
          exact hname rfl
        have hanswer := hcall.trans (Tree.remove_empty hres htree hnone)
        obtain ⟨d', hdoes, hsound, hput⟩ := hd.removes hg hm hvalue hloc hexists hcheck fun _ => hempty
        exact ⟨.ok (), d', hdoes, hsound, .done (hanswer.trans (congrArg Except.ok hput.symm))⟩
      · rw [if_neg hidle] at hcheck
        have hdoes : Does g.totalSectors (Write.remove (some g) path) d (.error .directoryNotEmpty) d := by
          refine .bind hresolve ?_
          rw [if_neg (by rw [hexists]; decide), geometryForWrite_bind, if_pos hm]
          exact .bind_error (.of_value (reads_checkRemovable _ _) hcheck) _
        refine ⟨.error .directoryNotEmpty, d, hdoes, hd, ?_⟩
        by_cases hsome : (Fat32.tree g d).Occupied ns
        · exact .refused (hcall.trans (Tree.remove_occupied hres htree hsome)) rfl
        -- what is left are slots that the tree does not show
        · obtain ⟨slot, hused, hkept⟩ : ∃ slot ∈ usedSlots g d (firstCluster r.entry), ¬ idle d slot = true := by
            by_contra hnot
            push Not at hnot
            exact hidle (List.all_eq_true.mpr hnot)
          refine .hidden hres hwalk hused ⟨Bool.eq_false_iff.mpr hkept, Bool.eq_false_iff.mpr fun hordinary => ?_⟩ rfl
          have hslot : slot ∈ objectSlots g d (firstCluster r.entry) := List.mem_filter.mpr ⟨hused, hordinary⟩
          refine hsome ⟨(entryAt d slot).name, fun hnone => ?_⟩
          rw [tree_concat hwalk, Option.map_eq_none_iff] at hnone
          exact find_none_iff.mp hnone slot hslot rfl

end Remove

def relocate (g : BpbGeometry) (source target : ResolvedPath) : Io Unit :=
  if source.parentCluster = target.parentCluster then
    putDirectoryEntryStatus g source.slot (setName source.entry target.name)
  else do
    match ← createDirectoryEntry (some g) target.parentCluster (shortComponent target.name) source.entry with
    | .error (status, _) => throw status
    | .ok published => deleteSource (some g) g source published

section Move
variable {g : BpbGeometry} {n : Nat} (hg : g.Sound n) (hm : g.mirroringEnabled = true) {d : Disk} {loose held : List Nat}
  {c c' : Nat} {l l' : List Nat} {s slot : DirectorySlot} {origin target : ResolvedPath} {ns nt : List ShortName}

theorem Owned.slots_apart (hd : Owned g d loose) (hc : Directory g d c) (hc' : Directory g d c') (hne : c ≠ c')
    (hl : Chain g d c l) (hl' : Chain g d c' l') (hs : s ∈ dirSlots g l) (hslot : slot ∈ dirSlots g l') : s.lba ≠ slot.lba := by
  obtain ⟨x, hx, i, j, hi, -, rfl⟩ := mem_dirSlots.mp hs
  obtain ⟨x', hx', i', j', hi', -, rfl⟩ := mem_dirSlots.mp hslot
  intro heq
  have hsame := (dataLba_inj (hl.valid x hx) (hl'.valid x' hx') hi hi' heq).1
  rw [← hsame] at hx'
  exact hd.directories_apart hc hc' hne hl hl' hx hx'

include hg hm

theorem Owned.renamed (hd : Owned g d []) {q : List ShortName} {p : Nat} (hq : (naming g d).walk g.rootCluster q = some p)
    (hslot : s ∈ objectSlots g d p) (hstands : Stands g d (entryAt d s) held) {text : CString} {name : ShortName}
    (henc : encodeShortName text = some name) (hmiss : lookup g d p name = none) :
    Owned g (putSlot d s (setName (entryAt d s) name)) [] ∧
      tree g (putSlot d s (setName (entryAt d s) name)) = (tree g d).rename q (entryAt d s).name name := by
  have hactive := hg.mirrored hm
  have hp := walk_directory hq
  obtain ⟨lp, hchain⟩ := hd.directories p hp
  have hopen : Open g d p lp s := Or.inr (mem_objectSlots.mp hslot).1
  have hself : entryAt (putSlot d s (setName (entryAt d s) name)) s = setName (entryAt d s) name :=
    entryAt_putSlot_self (aligned_of_mem (hopen.mem hchain)) _
  have hother : ∀ x ∈ objectSlots g d p, (entryAt d x).name ≠ name := fun x hx => hd.lookup_none hp henc hmiss hx
  have hattr := (ordinary_byte (List.mem_filter.mp hslot).2).2
  obtain ⟨hcluster, hsize⟩ := setName_cluster (entryAt d s) name
  obtain ⟨hedited, howned⟩ := hd.overwritten hg hp hchain hslot hstands.holds (hstands.setName henc)
    (ordinary_setName henc hattr) (fun x hx _ => by rw [name_setName]; exact hother x hx) (setName_directory _ name)
    (fun _ => hcluster) (fun x => (or_comm : x ∈ held ∨ x ∈ [] ↔ x ∈ [] ∨ x ∈ held)) (List.disjoint_nil_right held)
  have hstored : stored g (putSlot d s (setName (entryAt d s) name)) (entryAt (putSlot d s (setName (entryAt d s) name)) s) =
      stored g d (entryAt d s) := by
    rw [hself]
    unfold stored
    rw [setName_directory, hcluster, hsize]
    split_ifs with hdirectory
    · exact Eq.refl _
    · rw [hedited.fileBytes_kept hg hactive hd hp hslot (Bool.eq_false_iff.mpr hdirectory)]
  have hname' : (entryAt (putSlot d s (setName (entryAt d s) name)) s).name = name := by rw [hself, name_setName]
  have hrenames := hedited.renames hg hactive hd howned rfl rfl hslot rfl hname' (hother s hslot) hother hstored
  exact ⟨howned, tree_rename hd.unique hq hrenames⟩

theorem Owned.transfers (hd : Owned g d []) (hsource : Located g d ns origin) (hexists : origin.existing = true)
    (hfile : isDirectoryEntry origin.entry = false) (hloc : Located g d nt target) (hmissing : target.existing = false)
    (hne : origin.parentCluster ≠ target.parentCluster) :
    (∃ slot d₁ d', Does g.totalSectors (createDirectoryEntry (some g) target.parentCluster (shortComponent target.name)
        origin.entry) d (.ok (.ok slot)) d₁ ∧ Does g.totalSectors (deleteSource (some g) g origin slot) d₁ (.ok ()) d' ∧
        Owned g d' [] ∧ tree g d' = ((tree g d).put ns none).put nt (some (stored g d origin.entry).node)) ∨
    freeClusters g d = [] ∧ Does g.totalSectors (createDirectoryEntry (some g) target.parentCluster
        (shortComponent target.name) origin.entry) d (.ok (.error (.noSpace, true))) d := by
  have hactive := hg.mirrored hm
  obtain ⟨text, henc⟩ := hloc.encoded
  have hp' := hloc.parent
  obtain ⟨chain, hchain⟩ := hd.directories _ hp'
  rcases does_createDirectoryEntry_cases hg hm hd (encodeComponent_shortComponent henc) (hloc.missing hmissing) hchain origin.entry with
    ⟨slot, tail, fresh, t, chain', hprepared, hdoes⟩ | hfull
  swap
  · exact Or.inr hfull
  have ht := hprepared.owned hg hd hp' hchain
  have hshows : Shows g d t := ⟨fun c hc => hprepared.alike hg hd hp' hchain hc,
    (hprepared.edited hg hd hp' hchain).find_same hg hactive hd ht⟩
  have hsource' := hsource.shows hshows
  have hloc' := hloc.shows hshows
  have hname := hsource'.name ht hexists
  obtain ⟨hslot, hentry⟩ := hsource'.object hexists
  obtain ⟨q, rfl, hq⟩ := hsource'.path
  obtain ⟨q', rfl, hq'⟩ := hloc'.path
  obtain ⟨lp, hlp⟩ := ht.directories _ hsource'.parent
  have hmem := used_dirSlots hlp (mem_objectSlots.mp hslot).1
  have hopen : Open g t target.parentCluster chain' slot := Or.inl hprepared.vacant
  have hapart : ∀ x ∈ dirSlots g chain', origin.slot.lba ≠ x.lba := fun x hx =>
    ht.slots_apart hsource'.parent hloc'.parent hne hlp hprepared.linked hmem hx
  have hvacant : Vacant (deleteSlot t origin.slot) (dirSlots g chain') slot := by
    refine hprepared.vacant.congr fun x hx => entryAt_putSlot_ne (aligned_of_mem hmem) (aligned_of_mem hx) ?_ _
    rintro rfl
    exact hapart _ hx rfl
  obtain ⟨hsound, htree⟩ := ht.moved hg hm hq hslot (hentry ▸ hfile) hq' hprepared.linked hvacant henc (hloc'.missing hmissing)
  -- the code publishes before it deletes; the two slots are in different sectors, so the order does not show
  have hdisk : putSlot (putSlot t slot (setName origin.entry target.name)) origin.slot (origin.entry.setByte 0 0xE5) =
      putSlot (deleteSlot t origin.slot) slot (setName (entryAt t origin.slot) target.name) := by
    rw [putSlot_comm (hapart slot (hopen.mem hprepared.linked)).symm, hentry]
    rfl
  have hstored : (stored g t (entryAt t origin.slot)).node = (stored g d origin.entry).node := by
    have hsame := hsource'.tree ht
    rw [hshows.tree, hsource.tree hd, hexists, if_pos rfl, if_pos rfl] at hsame
    rw [← hentry]
    exact (Option.some.inj hsame).symm
  obtain ⟨hvalid, -, hlba⟩ := slot_bounds hg hlp.valid hmem
  refine Or.inl ⟨slot, _, _, hdoes, ?_, hdisk ▸ hsound, ?_⟩
  · unfold deleteSource
    exact .bind (does_putDirectoryEntry hvalid hlba).attempt (.pure _)
  · rw [hdisk, htree, hstored, ← hentry, hname, hshows.tree]

theorem Owned.relocateDirectory (hd : Owned g d []) (hsource : Located g d ns origin) (hexists : origin.existing = true)
    (hloc : Located g d nt target) (hmissing : target.existing = false)
    (hsame : origin.parentCluster = target.parentCluster) :
    ns.dropLast = nt.dropLast ∧ ∃ d', Does g.totalSectors (relocate g origin target) d (.ok ()) d' ∧ Owned g d' [] ∧
      tree g d' = (tree g d).rename ns.dropLast (ns.getLastD fun _ => 0) (nt.getLastD fun _ => 0) := by
  obtain ⟨held, hstands, -⟩ := hsource.stands hd hexists
  obtain ⟨text, henc⟩ := hloc.encoded
  have hname := hsource.name hd hexists
  have hmiss := hloc.missing hmissing
  obtain ⟨hslot, hentry⟩ := hsource.object hexists
  obtain ⟨q, rfl, hq⟩ := hsource.path
  obtain ⟨q', rfl, hq'⟩ := hloc.path
  rw [← hsame] at hq' hmiss
  obtain rfl := hd.unique.same_path hq hq'
  obtain ⟨lp, hchain⟩ := hd.directories _ hsource.parent
  obtain ⟨hvalid, -, hlba⟩ := slot_bounds hg hchain.valid (used_dirSlots hchain (mem_objectSlots.mp hslot).1)
  obtain ⟨hsound, htree⟩ := hd.renamed hg hm hq hslot (hentry ▸ hstands) henc hmiss
  rw [List.dropLast_concat, List.dropLast_concat, List.getLastD_concat, List.getLastD_concat]
  rw [← hentry, hname] at htree
  rw [← hentry] at hsound
  refine ⟨rfl, _, ?_, hsound, htree⟩
  unfold relocate
  rw [if_pos hsame]
  exact does_putDirectoryEntryStatus hvalid hlba _

theorem Owned.relocateFile (hd : Owned g d []) (hsource : Located g d ns origin) (hexists : origin.existing = true)
    (hfile : isDirectoryEntry origin.entry = false) (hloc : Located g d nt target) (hmissing : target.existing = false) :
    (∃ d', Does g.totalSectors (relocate g origin target) d (.ok ()) d' ∧ Owned g d' [] ∧
      tree g d' = ((tree g d).put ns none).put nt (some (stored g d origin.entry).node)) ∨
    freeClusters g d = [] ∧ Does g.totalSectors (relocate g origin target) d (.error .noSpace) d := by
  unfold relocate
  by_cases hsame : origin.parentCluster = target.parentCluster
  · left
    obtain ⟨text, henc⟩ := hloc.encoded
    have hname := hsource.name hd hexists
    have hmiss := hloc.missing hmissing
    obtain ⟨hslot, hentry⟩ := hsource.object hexists
    obtain ⟨q, rfl, hq⟩ := hsource.path
    obtain ⟨q', rfl, hq'⟩ := hloc.path
    rw [← hsame] at hq' hmiss
    obtain ⟨lp, hchain⟩ := hd.directories _ hsource.parent
    have hused := (mem_objectSlots.mp hslot).1
    obtain ⟨hvalid, -, hlba⟩ := slot_bounds hg hchain.valid (used_dirSlots hchain hused)
    obtain ⟨hsound, htree⟩ := hd.moved hg hm hq hslot (hentry ▸ hfile) hq' hchain (vacant_deleted hchain hused) henc hmiss
    -- a new name in place is the entry deleted and put there again
    have hdisk : putSlot (deleteSlot d origin.slot) origin.slot (setName (entryAt d origin.slot) target.name) =
        putSlot d origin.slot (setName origin.entry target.name) := by
      rw [hentry]
      exact putSlot_idem
    rw [hdisk] at hsound htree
    rw [← hentry, hname] at htree
    refine ⟨_, ?_, hsound, htree⟩
    rw [if_pos hsame]
    exact does_putDirectoryEntryStatus hvalid hlba _
  · rw [if_neg hsame]
    refine (hd.transfers hg hm hsource hexists hfile hloc hmissing hsame).imp ?_ fun ⟨hfull, hdoes⟩ => ⟨hfull, .bind hdoes (.throw _)⟩
    rintro ⟨slot, d₁, d', hcreate, hdelete, hsound, htree⟩
    exact ⟨d', .bind hcreate hdelete, hsound, htree⟩

theorem Owned.move (hd : Owned g d []) (source destination : Option CString) : Answers g d (.move source destination) := by
  have hcall : (Fat32.tree g d).call (.move source destination) = (Fat32.tree g d).move source destination := rfl
  rcases hd.resolve hg hm source with ⟨ns, origin, hres, hvalue, hsource⟩ | ⟨e, hres, hvalue⟩
  swap
  · rw [Tree.move, hres] at hcall
    exact ⟨.error e, d, .bind_error (.of_value (reads_resolvePath source) hvalue) _, hd, .refused hcall rfl⟩
  have hresolve := Does.of_value (reads_resolvePath source) hvalue
  have htree := hsource.tree hd
  cases hexists : origin.existing with
  | false =>
    rw [hexists, if_neg Bool.false_ne_true] at htree
    rw [Tree.move, hres, ok_bind, htree] at hcall
    refine ⟨.error .notFound, d, .bind hresolve ?_, hd, .refused hcall rfl⟩
    rw [if_pos (by rw [hexists]; rfl)]
    exact .throw _
  | true =>
    rw [hexists, if_pos rfl] at htree
    rcases hd.resolve hg hm destination with ⟨nt, target, hres', hvalue', hloc⟩ | ⟨e, hres', hvalue'⟩
    swap
    · refine ⟨.error e, d, .bind hresolve ?_, hd, .refused (hcall.trans (Tree.move_unresolved hres htree hres')) rfl⟩
      rw [if_neg (by rw [hexists]; decide)]
      exact .bind_error (.of_value (reads_resolvePath destination) hvalue') _
    have hresolve' := Does.of_value (reads_resolvePath destination) hvalue'
    have htree' := hloc.tree hd
    cases hmissing : target.existing with
    | true =>
      rw [hmissing, if_pos rfl] at htree'
      refine ⟨.error .alreadyExists, d, .bind hresolve ?_, hd,
        .refused (hcall.trans (Tree.move_existing hres htree hres' htree')) rfl⟩
      rw [if_neg (by rw [hexists]; decide)]
      refine .bind hresolve' ?_
      rw [if_pos hmissing]
      exact .throw _
    | false =>
      rw [hmissing, if_neg Bool.false_ne_true] at htree'
      obtain ⟨held, hstands, -⟩ := hsource.stands hd hexists
      have hcheck : value (checkMovable g origin.entry (firstCluster origin.entry)) d = .ok () := by
        unfold checkMovable
        split_ifs with hdirectory
        · have hl := hstands.holds.chain (hstands.directory hdirectory)
          exact value_validateDirectoryChain hg hl fun x hx => hd.agree x (hl.valid x hx)
        · obtain ⟨hzero, hlength⟩ := hstands.file (Bool.eq_false_iff.mpr hdirectory)
          exact value_validateFileChain hg hstands.holds hd.agree hzero hlength
      -- a sound volume passes the checks, and the rest of the call is `relocate`
      have hsteps : ¬ (isDirectoryEntry origin.entry = true ∧ origin.parentCluster ≠ target.parentCluster) → ∀ {result d'},
          Does g.totalSectors (relocate g origin target) d result d' →
          Does g.totalSectors (Write.move (some g) source destination) d result d' := by
        intro hallowed result d' hrest
        refine .bind hresolve ?_
        rw [if_neg (by rw [hexists]; decide)]
        refine .bind hresolve' ?_
        rw [if_neg (by rw [hmissing]; decide), geometryForWrite_bind, if_pos hm, if_neg hallowed]
        exact .bind (.of_value (reads_checkMovable _ _) hcheck) hrest
      cases hdirectory : isDirectoryEntry origin.entry with
      | false =>
        have hstored : stored g d origin.entry = _ := stored_file hdirectory rfl rfl
        rw [hstored] at htree
        have hallowed : ¬ (isDirectoryEntry origin.entry = true ∧ origin.parentCluster ≠ target.parentCluster) := by
          rw [hdirectory]
          exact fun h => Bool.false_ne_true h.1
        have hanswer := hcall.trans (Tree.move_file hres hres' htree' htree)
        rcases hd.relocateFile hg hm hsource hexists hdirectory hloc hmissing with ⟨d', hdoes, hsound, hput⟩ | ⟨hfull, hdoes⟩
        · rw [hstored] at hput
          exact ⟨.ok (), d', hsteps hallowed hdoes, hsound, .done (hanswer.trans (congrArg Except.ok hput.symm))⟩
        · refine ⟨.error .noSpace, d, hsteps hallowed hdoes, hd, .full hanswer rfl ?_⟩
          rw [hfull]
          exact le_refl 0
      | true =>
        rw [stored, if_pos hdirectory] at htree
        have hanswer := hcall.trans (Tree.move_directory hres hres' htree' htree)
        by_cases hsame : origin.parentCluster = target.parentCluster
        · obtain ⟨hparents, d', hdoes, hsound, hput⟩ := hd.relocateDirectory hg hm hsource hexists hloc hmissing hsame
          rw [if_neg (not_not.mpr hparents)] at hanswer
          exact ⟨.ok (), d', hsteps (fun h => h.2 hsame) hdoes, hsound, .done (hanswer.trans (congrArg Except.ok hput.symm))⟩
        · have hparents : ns.dropLast ≠ nt.dropLast := by
            intro heq
            obtain ⟨q, rfl, hq⟩ := hsource.path
            obtain ⟨q', rfl, hq'⟩ := hloc.path
            rw [List.dropLast_concat, List.dropLast_concat] at heq
            rw [heq, hq'] at hq
            exact hsame (Option.some.inj hq).symm
          rw [if_pos hparents] at hanswer
          refine ⟨.error .unsupported, d, .bind hresolve ?_, hd, .refused hanswer rfl⟩
          rw [if_neg (by rw [hexists]; decide)]
          refine .bind hresolve' ?_
          rw [if_neg (by rw [hmissing]; decide), geometryForWrite_bind, if_pos hm, if_pos ⟨hdirectory, hsame⟩]
          exact .throw _

end Move

end Linux95.Fat32
