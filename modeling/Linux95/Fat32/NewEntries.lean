import Linux95.Fat32.GrowthOrder

/-! `create_directory_entry` as a whole: one entry more in the listing of the directory, and nothing
else on the volume is touched. -/

namespace Linux95.Fat32
open Base Storage Write

section Named
variable {e : Entry} {name : ShortName} {text : CString}

theorem byte_setName_low {i : Nat} (hi : i < 11) : (setName e name).byte i = name.byte i := by
  unfold Entry.byte setName
  rw [dif_pos (by omega), if_pos hi]

theorem byte_setName_high {i : Nat} (hi : 11 ≤ i) : (setName e name).byte i = e.byte i := by
  unfold Entry.byte setName
  split_ifs with _ hlow
  · exact absurd hlow (Nat.not_lt.mpr hi)
  · rfl
  · rfl

theorem name_setName : (setName e name).name = name := by
  funext i
  unfold Entry.name
  rw [byte_setName_low i.isLt]
  unfold ShortName.byte
  rw [dif_pos i.isLt]

theorem setName_hit (henc : encodeShortName text = some name) :
    (setName e name).byte 0 ≠ 0 ∧ nameMatches (setName e name) name = true ∧
      (e.byte 11 &&& 0x08 = 0 → liveShortEntry (setName e name) = true) := by
  obtain ⟨hplain, hupper, hdeleted⟩ := encodeShortName_plain henc
  have hbyte : (setName e name).byte 0 = name 0 := byte_setName_low (by decide)
  have hzero := (hplain.2 0).1
  refine ⟨by rw [hbyte]; exact hzero, ?_, fun hattr => ?_⟩
  · refine decide_eq_true fun i => ?_
    have hi : (setName e name).byte i.val = name i := by
      rw [byte_setName_low i.isLt]
      unfold ShortName.byte
      rw [dif_pos i.isLt]
    rw [hi, hupper i]
  · have hlong : e.byte 11 ≠ 0x0F := by
      intro h
      rw [h] at hattr
      exact absurd hattr (by decide)
    unfold liveShortEntry
    rw [hbyte, byte_setName_high (le_refl 11)]
    simp [hzero, hdeleted, hlong, hattr]

theorem shownEntry_setName (henc : encodeShortName text = some name) (hattr : e.byte 11 &&& 0x08 = 0) :
    ∃ shown, shownEntry (setName e name) = [⟨shown, isDirectoryEntry e, le32 e.byte 28⟩] ∧
      asciiIequals shown text = true := by
  obtain ⟨-, hmatch, hlive⟩ := setName_hit (e := e) henc
  have hplain : PlainName (setName e name).name := by
    rw [name_setName]
    exact (encodeShortName_plain henc).1
  obtain ⟨entry, hdecoded, hequal⟩ := (slot_agree henc fun _ => Or.inr hplain).mp ⟨hlive hattr, hmatch⟩
  obtain ⟨-, -, shown, -, rfl⟩ := decode_normal_iff.mp hdecoded
  refine ⟨shown, ?_, hequal⟩
  have hdirectory : isDirectoryEntry (setName e name) = isDirectoryEntry e := by
    unfold isDirectoryEntry
    rw [byte_setName_high (le_refl 11)]
  have hsize : le32 (setName e name).byte 28 = le32 e.byte 28 := by
    unfold le32
    rw [byte_setName_high (by decide), byte_setName_high (by decide), byte_setName_high (by decide),
      byte_setName_high (by decide)]
  unfold shownEntry
  rw [hdecoded]
  show [(⟨shown, isDirectoryEntry (setName e name), le32 (setName e name).byte 28⟩ : FileEntry)] = _
  rw [hdirectory, hsize]

end Named

/-- A directory before and after one entry was added to it: `chain` and `chain'` are its clusters. -/
structure EntryInserted (g : BpbGeometry) (d d' : Disk) (dir : Nat) (chain chain' : List Nat)
    (slot : DirectorySlot) (e : Entry) : Prop where
  linked : Chain g d' dir chain'
  grows : chain' = chain ∨ ∃ fresh, Free g d fresh ∧ chain' = chain ++ [fresh] ∧
    ∀ x ∈ clusterSlots g fresh, x ≠ slot → entryAt d' x = Entry.zero
  stored : entryAt d' slot = e
  kept : ∀ x ∈ usedSlots g d dir, x ≠ slot → entryAt d' x = entryAt d x
  hidden : ∀ x, x ∈ usedSlots g d' dir ↔ x ∈ usedSlots g d dir ∨ x = slot
  listed : ∃ before after, chainEntries g d g.clusterCount dir = (before ++ after, .ok) ∧
    chainEntries g d' g.clusterCount dir = (before ++ shownEntry e ++ after, .ok)
  lookups : ∀ name, (liveShortEntry e && nameMatches e name) = false →
    (usedSlots g d' dir).find? (isHit d' name) = (usedSlots g d dir).find? (isHit d name)
  untouched : Untouched g d d' chain'
  elsewhere : ∀ c l, Chain g d c l → List.Disjoint l chain → Chain g d' c l ∧
    ∀ x ∈ l, ∀ i, i < g.sectorsPerCluster → d' (g.dataLba x i) = d (g.dataLba x i)

section Insert
variable {g : BpbGeometry} {n : Nat} (hg : g.Sound n) {d : Disk} {c : Nat} {chain : List Nat}
include hg

theorem Prepared.inserted (hactive : g.activeFat = 0) (hchain : Chain g d c chain) {tail fresh : Nat}
    {slot : DirectorySlot} {d' : Disk} {chain' : List Nat} {e : Entry}
    (h : Prepared g d c chain tail slot fresh d' chain') (he : e.byte 0 ≠ 0) :
    EntryInserted g d (putSlot d' slot e) c chain chain' slot e := by
  have hvalid := h.linked.valid
  have hslot : slot ∈ dirSlots g chain' := by
    obtain ⟨pre, post, hslots, -⟩ := h.vacant
    rw [hslots]
    exact List.mem_append_right _ List.mem_cons_self
  have haligned : ∀ x ∈ dirSlots g chain', Aligned x := fun x hx => aligned_of_mem hx
  have hlinked : Chain g (putSlot d' slot e) c chain' :=
    h.linked.congr fun y _ => link_update hg (slot_lba hg hvalid hslot) y
  have hadded : EntryAdded d (putSlot d' slot e) (dirSlots g chain) (dirSlots g chain') slot e :=
    h.same.added (h.vacant.put haligned (dirSlots_nodup hvalid h.linked.nodup) he)
  have huntouched : Untouched g d (putSlot d' slot e) chain' :=
    (h.untouched hg).trans (untouched_update hg hvalid hslot)
  have hused := usedSlots_chain hchain
  have hused' := usedSlots_chain hlinked
  constructor
  case linked => exact hlinked
  -- the slots of a new cluster other than the entry's are zero
  case grows =>
    rcases h.change with ⟨-, hsame, -⟩ | ⟨hfresh, hgrown, -, -, rfl⟩
    · exact Or.inl hsame
    · refine Or.inr ⟨fresh, hfresh, hgrown, fun x hx hne => ?_⟩
      have hmem : x ∈ dirSlots g chain' := by
        rw [hgrown, dirSlots_append, dirSlots_singleton]
        exact List.mem_append_right _ hx
      rw [entryAt_putSlot_ne (haligned slot hslot) (haligned x hmem) hne]
      obtain ⟨i, j, hi, hj, rfl⟩ := mem_clusterSlots.mp hx
      unfold entryAt
      rw [grown_fresh hg hfresh.1 hi]
      funext k
      exact Sector.byte_zero _
  case stored => exact entryAt_putSlot_self (haligned slot hslot) e
  case kept =>
    intro x hx hne
    rw [hused] at hx
    obtain ⟨pre, post, hbefore, -, hentries, -⟩ := hadded
    apply hentries
    rcases hbefore with hin | ⟨hin, -⟩
    · exact hin ▸ hx
    · rw [hin] at hx
      rcases List.mem_append.mp hx with hx | hx
      · exact List.mem_append_left _ hx
      · exact List.mem_append_right _ ((List.mem_cons.mp hx).resolve_left hne)
  case hidden =>
    intro x
    rw [hused, hused']
    obtain ⟨pre, post, hbefore, hafter, -, -⟩ := hadded
    rw [hafter]
    rcases hbefore with hin | ⟨hin, -⟩
    · rw [hin, List.mem_append, List.mem_append, List.mem_cons]
      tauto
    · rw [hin, List.mem_append, List.mem_cons]
      tauto
  case listed =>
    obtain ⟨before, after, hbefore, hafter⟩ := hadded.listing
    refine ⟨before, after, ?_, ?_⟩
    · rw [chainEntries_chain hactive hchain _ hchain.length_le, hbefore]
    · rw [chainEntries_chain hactive hlinked _ hlinked.length_le, hafter]
  case lookups =>
    intro name hmiss
    rw [hused, hused']
    exact (hadded.find_other hmiss).1
  case untouched => exact huntouched
  case elsewhere =>
    intro c' l hl hdisjoint
    refine huntouched.chain hg hvalid hl fun x hx hx' => ?_
    rcases h.change with ⟨-, hsame, -⟩ | ⟨hfresh, hgrown, -⟩
    · exact hdisjoint hx (hsame ▸ hx')
    · rw [hgrown] at hx'
      rcases List.mem_append.mp hx' with hx' | hx'
      · exact hdisjoint hx hx'
      · rw [List.mem_singleton.mp hx'] at hx
        exact free_notMem hl hfresh hx

theorem prepareSlot_full (hm : g.mirroringEnabled = true) (hagree : ∀ x, validCluster g x = true → Agree g d x)
    {free : FreeSearch} {tail : Nat} (hgrow : growthNeeded g d free tail) (hfull : freeClusters g d = [])
    (dev : Device) (hdev : dev.sectors = d) :
    wp (prepareSlot (some g) g free tail) (fun _ _ => False) (fun _ dev' => dev'.sectors = d) dev := by
  have hnone : ∀ x, ¬ Free g d x := by
    intro x hx
    have hv := validCluster_iff.mp hx.1
    have hmem : x ∈ freeClusters g d :=
      List.mem_filter.mpr ⟨List.mem_range'_1.mpr ⟨hv.1, by omega⟩, hx.2⟩
    rw [hfull] at hmem
    cases hmem
  unfold prepareSlot
  refine wp_bind ((reads_markerFor free tail).wp dev) ?_ (fun _ _ h => h.1.trans hdev)
  rintro marker dev' ⟨hvalue, hsec, -⟩
  rw [hdev] at hvalue hsec
  have hgrow' : free.freeSlot.lba = 0 ∨ free.freeIsEnd = true ∧ marker.isNone = true := by
    refine hgrow.imp id fun ⟨hend, hnone⟩ => ⟨hend, ?_⟩
    rw [hnone] at hvalue
    rw [← Except.ok.inj hvalue]
    rfl
  rw [if_pos hgrow']
  unfold growDirectory
  refine wp_bind (R := fun _ _ => False) (F := fun _ dev' => dev'.sectors = d) ?_ (fun _ _ h => h.elim)
    (fun _ _ h => h)
  refine wp_bind (allocateChain_wp hg hm hagree 1 dev' hsec) ?_ ?_
  · rintro fresh dev'' ⟨hlen, -⟩
    rw [freeAmong_all, hfull] at hlen
    exact absurd hlen (by decide)
  · rintro e dev'' (⟨-, -, hsec'⟩ | ⟨-, -, p, hpatch, hp⟩)
    · exact hsec'
    -- a patch about free clusters is about none
    · have hempty : p = fun _ _ => none := by
        funext k x
        cases hx : p k x with
        | none => rfl
        | some w => exact absurd (hp k x w hx) (hnone x)
      rw [hpatch, hempty, patchFat_nothing]

theorem createDirectoryEntry_ok (hm : g.mirroringEnabled = true)
    (hagree : ∀ x, validCluster g x = true → Agree g d x) (hchain : Chain g d c chain) {name : CString}
    {entry : Entry} {slot : DirectorySlot} {dev : Device} (hdev : dev.sectors = d)
    (hok : ((createDirectoryEntry (some g) c name entry).exec dev).1 = .ok (.ok slot)) :
    ∃ encoded free tail, encodeComponent name = some encoded ∧
      value (findInDirectory g c encoded) d = .ok (.notFound free tail) ∧ Vacancy g d chain free tail ∧
      (growthNeeded g d free tail → freeClusters g d ≠ []) := by
  have hfails : wp (createDirectoryEntry (some g) c name entry) (fun r _ => ∃ e, r = .error e) (fun _ _ => False)
      dev → False := by
    intro hwp
    obtain ⟨e, he⟩ := (wp_iff.mp hwp).1 _ hok
    cases he
  cases henc : encodeComponent name with
  | none =>
    refine (hfails ?_).elim
    unfold createDirectoryEntry
    rw [henc]
    exact wp_pure ⟨_, rfl⟩
  | some encoded =>
    rw [createDirectoryEntry_eq hm henc] at hfails
    have hfind : wp (findInDirectory g c encoded).attempt
        (fun r dev' => dev'.sectors = d ∧ ∀ x, r = .ok x → value (findInDirectory g c encoded) d = .ok x)
        (fun _ _ => False) dev :=
      wp_attempt ((reads_findInDirectory c encoded).wp dev)
        (fun a dev' h => ⟨h.2.1.trans hdev, fun x hx => Except.ok.inj hx ▸ hdev ▸ h.1⟩)
        (fun e dev' h => ⟨h.1.trans hdev, fun x hx => (nomatch hx)⟩)
    rcases findInDirectory_cases hg hchain encoded with ⟨found, -, hfound⟩ | ⟨-, free, tail, hmissing, hvacancy⟩
    · refine (hfails (wp_bind hfind ?_ fun _ _ h => h)).elim
      rintro (e | ⟨slot', e⟩ | ⟨free, tail⟩) dev' ⟨-, hvalue⟩
      · exact wp_pure ⟨_, rfl⟩
      · exact wp_pure ⟨_, rfl⟩
      · have hnot := hvalue _ rfl
        rw [hfound] at hnot
        cases hnot
    · refine ⟨encoded, free, tail, rfl, hmissing, hvacancy, fun hgrow hfull => ?_⟩
      refine hfails (wp_bind hfind ?_ fun _ _ h => h)
      rintro (e | ⟨slot', e⟩ | ⟨free', tail'⟩) dev' ⟨hsec, hvalue⟩
      · exact wp_pure ⟨_, rfl⟩
      · exact wp_pure ⟨_, rfl⟩
      · have hnot := hvalue _ rfl
        rw [hmissing] at hnot
        obtain ⟨rfl, rfl⟩ := Search.notFound.inj (Except.ok.inj hnot)
        dsimp only
        rw [createAbsent_eq]
        refine wp_bind (wp_attempt (prepareSlot_full hg hm hagree hgrow hfull dev' hsec)
          (Q := fun r _ => ∃ e, r = .error e) (E := fun _ _ => False) (fun _ _ h => h.elim) fun e _ _ => ⟨e, rfl⟩)
          ?_ (fun _ _ h => h)
        rintro r dev'' ⟨e, rfl⟩
        exact wp_pure ⟨_, rfl⟩

end Insert

/-- `create_directory_entry` adds exactly one entry: the listing is the old one with the new entry in
it, nothing behind the end marker shows up, nothing else on the volume changes, and a cluster that the
directory grows by is cleared before any copy of the FAT links to it, whatever the drive refuses. -/
theorem createDirectoryEntry_inserts (sector : Sector) (diskSectors : Nat) (g : BpbGeometry)
    (h : parseBpb sector diskSectors = some g) (hm : g.mirroringEnabled = true) (dev : Device)
    (hready : dev.Ready g.totalSectors) (hagree : ∀ x, validCluster g x = true → Agree g dev.sectors x)
    (dir : Nat) (chain : List Nat) (hchain : Chain g dev.sectors dir chain) (name : CString) (entry : Entry)
    (slot : DirectorySlot) (hok : ((createDirectoryEntry (some g) dir name entry).exec dev).1 = .ok (.ok slot)) :
    let dev' := ((createDirectoryEntry (some g) dir name entry).exec dev).2
    ∃ encoded chain', encodeComponent name = some encoded ∧
      EntryInserted g dev.sectors dev'.sectors dir chain chain' slot (setName entry encoded) ∧
      (∃ before after,
        ((emitDirectory g dir collect []).exec dev).1 = .ok (before ++ after, .ok) ∧
        ((emitDirectory g dir collect []).exec dev').1 =
          .ok (before ++ shownEntry (setName entry encoded) ++ after, .ok) ∧
        ∀ path, ((resolveDirectoryCluster (some g) path).exec dev).1 = .ok dir →
          ((resolveDirectoryCluster (some g) path).exec dev').1 = .ok dir →
          ((listDirectory (some g) path (some collect) []).exec dev).1 = .ok (before ++ after, .ok) ∧
          ((listDirectory (some g) path (some collect) []).exec dev').1 =
            .ok (before ++ shownEntry (setName entry encoded) ++ after, .ok)) ∧
      (entry.byte 11 &&& 0x08 = 0 → ∃ shown,
        shownEntry (setName entry encoded) = [⟨shown, isDirectoryEntry entry, le32 entry.byte 28⟩] ∧
        asciiIequals shown (name.takeWhile (· ≠ 0)) = true) ∧
      ∀ faulty : Device, faulty.sectors = dev.sectors → ∀ before last, chain = before ++ [last] →
        LinkedBlank g dev.sectors last (setName entry encoded)
          ((createDirectoryEntry (some g) dir name entry).exec faulty).2.sectors := by
  have hg := parseBpb_sound h
  have hactive := hg.mirrored hm
  obtain ⟨encoded, free, tail, henc, hfind, hvacancy, hspace⟩ :=
    createDirectoryEntry_ok hg hm hagree hchain rfl hok
  have hshort : encodeShortName (name.takeWhile (· ≠ 0)) = some encoded := by
    unfold encodeComponent at henc
    split_ifs at henc
    exact henc
  obtain ⟨slot', fresh, d', chain', hprepared, hprepare⟩ :=
    oneFault_prepareSlot hg hm hagree hchain hvacancy hspace
  have hinserted := hprepared.inserted hg hactive hchain (setName_hit (e := entry) hshort).1
  have hdoes := does_createDirectoryEntry hg hm entry henc hfind hprepared hprepare.does
  obtain ⟨hresult, hsec, hsame⟩ := hdoes dev hready rfl
  rw [hok] at hresult
  obtain rfl : slot = slot' := Except.ok.inj (Except.ok.inj hresult)
  have hready' := hsame.ready hready
  rw [← hsec] at hinserted
  intro dev'
  obtain ⟨before, after, hbefore, hafter⟩ := hinserted.listed
  refine ⟨encoded, chain', henc, hinserted, ⟨before, after, ?_, ?_, fun path hpath hpath' => ?_⟩,
    shownEntry_setName hshort, fun faulty hfaulty before last hsplit => ?_⟩
  · have hemit := (does_emitClusters hg dev.sectors g.clusterCount dir []).exec hready rfl
    rw [hbefore, List.nil_append] at hemit
    exact hemit.1
  · have hemit := (does_emitClusters hg dev'.sectors g.clusterCount dir []).exec hready' rfl
    rw [hafter, List.nil_append] at hemit
    exact hemit.1
  · have hlist := (does_listDirectory hg dev.sectors path).exec hready rfl
    have hlist' := (does_listDirectory hg dev'.sectors path).exec hready' rfl
    have hvalue := (reads_resolveDirectoryCluster hg path).exec_ok hpath
    have hvalue' := (reads_resolveDirectoryCluster hg path).exec_ok hpath'
    rw [show listing g dev.sectors path = (before ++ after, .ok) by unfold listing; rw [hvalue]; exact hbefore]
      at hlist
    rw [show listing g dev'.sectors path = (before ++ shownEntry (setName entry encoded) ++ after, .ok) by
      unfold listing; rw [hvalue']; exact hafter] at hlist'
    exact ⟨hlist.1, hlist'.1⟩
  · subst hsplit
    have hwp := createDirectoryEntry_wp hg hagree hchain hm entry henc faulty hfaulty
    obtain ⟨hright, hwrong⟩ := wp_iff.mp hwp
    cases hexec : ((createDirectoryEntry (some g) dir name entry).exec faulty).1 with
    | ok r => exact hright r hexec
    | error e => exact (hwrong e hexec).elim

def fullDisk (lba : Nat) : Sector :=
  if lba = 1056 then fun j =>
    if j.val % 32 = 0 then UInt8.ofNat (0x41 + j.val / 32) else if j.val % 32 ≤ 11 then 0x20 else 0
  else chainDisk lba

def fullDevice : Device := ⟨fullDisk, 66586, true, fun _ => .none, []⟩

theorem fullDisk_agree (c : Nat) (hc : validCluster smallGeometry c = true) : Agree smallGeometry fullDisk c := by
  have hfat : ∀ k < 2, fullDisk (smallGeometry.fatLba k c) = chainDisk (smallGeometry.fatLba k c) := by
    intro k hk
    have hlt : smallGeometry.fatLba k c < 1056 := (fatLba_bounds (parseBpb_sound parseBpb_smallBoot) hc hk).2.2
    exact if_neg (Nat.ne_of_lt hlt)
  intro k hk
  have hchain := chainDisk_agree c hc k hk
  unfold fatEntry at hchain ⊢
  rw [hfat k hk, hfat 0 (by decide)]
  exact hchain

/-- A file in a full root directory, which grows by cluster 5. -/
theorem createDirectoryEntry_inserts_full :
    ((createDirectoryEntry (some smallGeometry) 2 shortPath (Entry.zero.setByte 11 0x20)).exec fullDevice).1 =
      .ok (.ok ⟨1059, 0⟩) ∧
    ∃ encoded, encodeComponent shortPath = some encoded ∧
      EntryInserted smallGeometry fullDisk
        ((createDirectoryEntry (some smallGeometry) 2 shortPath (Entry.zero.setByte 11 0x20)).exec
          fullDevice).2.sectors 2 [2] [2, 5] ⟨1059, 0⟩ (setName (Entry.zero.setByte 11 0x20) encoded) := by
  have hok : ((createDirectoryEntry (some smallGeometry) 2 shortPath (Entry.zero.setByte 11 0x20)).exec
      fullDevice).1 = .ok (.ok ⟨1059, 0⟩) := by decide +kernel
  obtain ⟨encoded, chain', henc, hinserted, -⟩ := createDirectoryEntry_inserts smallBoot 66586 smallGeometry
    parseBpb_smallBoot rfl fullDevice ⟨⟨rfl, fun _ => rfl⟩, le_refl 66586⟩ fullDisk_agree 2 [2]
    (.last (by decide +kernel)) shortPath (Entry.zero.setByte 11 0x20) ⟨1059, 0⟩ hok
  have hchain : Chain smallGeometry ((createDirectoryEntry (some smallGeometry) 2 shortPath
      (Entry.zero.setByte 11 0x20)).exec fullDevice).2.sectors 2 [2, 5] :=
    .next (show link smallGeometry _ 2 = some (some 5) by decide +kernel) (.last (by decide +kernel))
  rw [hinserted.linked.unique hchain] at hinserted
  exact ⟨hok, encoded, henc, hinserted⟩

end Linux95.Fat32
