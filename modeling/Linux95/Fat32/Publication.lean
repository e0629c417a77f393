import Linux95.Fat32.DirectoryInsertion

/-! The second half of `create_directory_entry`: an entry put into a prepared slot is the one entry that
becomes visible. -/

namespace Linux95.Fat32
open Base Storage Write

/-- The slots in use are those before with one more, which holds `e`; a deleted slot may have been there
already. -/
def EntryAdded (d d' : Disk) (slots slots' : List DirectorySlot) (slot : DirectorySlot) (e : Entry) : Prop :=
  ∃ pre post, (inUse d slots = pre ++ post ∨ inUse d slots = pre ++ slot :: post ∧ slotDeleted d slot = true) ∧
    inUse d' slots' = pre ++ slot :: post ∧ (∀ x ∈ pre ++ post, entryAt d' x = entryAt d x) ∧
    entryAt d' slot = e

section Added
variable {d d' d'' : Disk} {slots slots' : List DirectorySlot} {slot : DirectorySlot} {e : Entry}

theorem used_of_deleted (h : slotDeleted d slot = true) : slotUsed d slot = true := by
  have hbyte : (entryAt d slot).byte 0 = 0xE5 := of_decide_eq_true h
  unfold slotUsed
  rw [hbyte]
  decide

theorem Vacant.put (h : Vacant d slots slot) (haligned : ∀ x ∈ slots, Aligned x) (hnodup : slots.Nodup)
    (he : e.byte 0 ≠ 0) : EntryAdded d (putSlot d slot e) slots slots slot e := by
  obtain ⟨pre, post, rfl, hused, hvacant⟩ := h
  have hslot : Aligned slot := haligned slot (List.mem_append_right _ List.mem_cons_self)
  rw [List.nodup_append] at hnodup
  have hself : entryAt (putSlot d slot e) slot = e := entryAt_putSlot_self hslot e
  have hpre : ∀ x ∈ pre, entryAt (putSlot d slot e) x = entryAt d x := fun x hx =>
    entryAt_putSlot_ne hslot (haligned x (List.mem_append_left _ hx))
      (hnodup.2.2 x hx slot List.mem_cons_self) e
  have hpost : ∀ x ∈ post, entryAt (putSlot d slot e) x = entryAt d x := by
    intro x hx
    refine entryAt_putSlot_ne hslot (haligned x (List.mem_append_right _ (List.mem_cons_of_mem slot hx))) ?_ e
    rintro rfl
    exact (List.nodup_cons.mp hnodup.2.1).1 hx
  have hnew : slotUsed (putSlot d slot e) slot = true := by
    unfold slotUsed
    rw [hself]
    exact decide_eq_true he
  have hused' : ∀ x ∈ pre, slotUsed (putSlot d slot e) x = true :=
    fun x hx => (slotUsed_congr (hpre x hx)).trans (hused x hx)
  have hinUse : inUse (putSlot d slot e) (pre ++ slot :: post) = pre ++ slot :: inUse d post := by
    rw [inUse_used hused' hnew, inUse_congr hpost]
  refine ⟨pre, inUse d post, ?_, hinUse, ?_, hself⟩
  · rcases hvacant with hdel | ⟨hend, marker, rest, rfl, hmarker⟩
    · exact Or.inr ⟨inUse_used hused (used_of_deleted hdel), hdel⟩
    · have hnone : inUse d (marker :: rest) = [] :=
        List.takeWhile_cons_of_neg (by rw [hmarker]; decide)
      left
      rw [inUse_end hused hend, hnone, List.append_nil]
  · intro x hx
    rcases List.mem_append.mp hx with hx | hx
    · exact hpre x hx
    · exact hpost x (mem_inUse hx).1

theorem SameInUse.added (h : SameInUse d d' slots slots') (h' : EntryAdded d' d'' slots' slots' slot e) :
    EntryAdded d d'' slots slots' slot e := by
  obtain ⟨pre, post, hbefore, hafter, hentries, hself⟩ := h'
  rw [h.1] at hbefore
  refine ⟨pre, post, ?_, hafter, fun x hx => (hentries x hx).trans (h.2 x ?_), hself⟩
  · refine hbefore.imp id fun ⟨hin, hdel⟩ => ⟨hin, ?_⟩
    unfold slotDeleted at hdel ⊢
    rw [← h.2 slot (by rw [hin]; exact List.mem_append_right _ List.mem_cons_self)]
    exact hdel
  · rcases hbefore with hin | ⟨hin, -⟩
    · rw [hin]
      exact hx
    · rw [hin]
      rcases List.mem_append.mp hx with hx | hx
      · exact List.mem_append_left _ hx
      · exact List.mem_append_right _ (List.mem_cons_of_mem slot hx)

theorem shownEntry_deleted (h : slotDeleted d slot = true) : shownEntry (entryAt d slot) = [] := by
  have hbyte : (entryAt d slot).byte 0 = 0xE5 := of_decide_eq_true h
  unfold shownEntry decodeDirectoryEntry
  rw [if_neg (by rw [hbyte]; decide), if_pos hbyte]

theorem EntryAdded.listing (h : EntryAdded d d' slots slots' slot e) :
    ∃ before after, (slotEntries d slots).1 = before ++ after ∧
      (slotEntries d' slots').1 = before ++ shownEntry e ++ after := by
  obtain ⟨pre, post, hbefore, hafter, hentries, hself⟩ := h
  refine ⟨pre.flatMap fun x => shownEntry (entryAt d x), post.flatMap fun x => shownEntry (entryAt d x), ?_, ?_⟩
  · rw [slotEntries_eq]
    rcases hbefore with hin | ⟨hin, hdel⟩
    · dsimp only
      rw [hin, List.flatMap_append]
    · dsimp only
      rw [hin, List.flatMap_append, List.flatMap_cons, shownEntry_deleted hdel, List.nil_append]
  · have hshown : ∀ l, l ⊆ pre ++ post → (l.flatMap fun x => shownEntry (entryAt d' x)) =
        l.flatMap fun x => shownEntry (entryAt d x) :=
      fun l hl => List.flatMap_congr fun x hx => by rw [hentries x (hl hx)]
    rw [slotEntries_eq]
    dsimp only
    rw [hafter, List.flatMap_append, List.flatMap_cons, hself, hshown pre (List.subset_append_left _ _),
      hshown post (List.subset_append_right _ _), List.append_assoc]

theorem isHit_congr {name : ShortName} (h : entryAt d' slot = entryAt d slot) :
    isHit d' name slot = isHit d name slot := by
  unfold isHit
  rw [h]

theorem find_congr {l : List DirectorySlot} {name : ShortName} (h : ∀ x ∈ l, entryAt d' x = entryAt d x) :
    l.find? (isHit d' name) = l.find? (isHit d name) := by
  induction l with
  | nil => rfl
  | cons x l ih =>
    rw [List.find?_cons, List.find?_cons, isHit_congr (h x List.mem_cons_self),
      ih fun y hy => h y (List.mem_cons_of_mem x hy)]

theorem EntryAdded.find_other {name : ShortName} (h : EntryAdded d d' slots slots' slot e)
    (hmiss : (liveShortEntry e && nameMatches e name) = false) :
    (inUse d' slots').find? (isHit d' name) = (inUse d slots).find? (isHit d name) ∧
      ∀ s, (inUse d slots).find? (isHit d name) = some s → entryAt d' s = entryAt d s := by
  obtain ⟨pre, post, hbefore, hafter, hentries, hself⟩ := h
  have hnew : isHit d' name slot = false := by
    unfold isHit
    rw [hself]
    exact hmiss
  have hold : (inUse d slots).find? (isHit d name) = (pre ++ post).find? (isHit d name) := by
    rcases hbefore with hin | ⟨hin, hdel⟩
    · rw [hin]
    · have hbyte : (entryAt d slot).byte 0 = 0xE5 := of_decide_eq_true hdel
      have hskip : isHit d name slot = false := by
        unfold isHit liveShortEntry
        rw [hbyte]
        rfl
      rw [hin, List.find?_append, List.find?_append, List.find?_cons, hskip]
  rw [hold]
  constructor
  · rw [hafter, ← find_congr hentries, List.find?_append, List.find?_append, List.find?_cons, hnew]
  · exact fun s hs => hentries s (List.mem_of_find?_eq_some hs)

theorem EntryAdded.find_new {name : ShortName} (h : EntryAdded d d' slots slots' slot e)
    (hhit : (liveShortEntry e && nameMatches e name) = true)
    (habsent : (inUse d slots).find? (isHit d name) = none) :
    (inUse d' slots').find? (isHit d' name) = some slot := by
  obtain ⟨pre, post, hbefore, hafter, hentries, hself⟩ := h
  have hnew : isHit d' name slot = true := by
    unfold isHit
    rw [hself]
    exact hhit
  have hpre : pre.find? (isHit d' name) = none := by
    rw [find_congr fun x hx => hentries x (List.mem_append_left _ hx)]
    rcases hbefore with hin | ⟨hin, -⟩
    · rw [hin, List.find?_append, Option.or_eq_none_iff] at habsent
      exact habsent.1
    · rw [hin, List.find?_append, Option.or_eq_none_iff] at habsent
      exact habsent.1
  rw [hafter, List.find?_append, hpre, Option.none_or, List.find?_cons, hnew]

end Added

section Publish
variable {g : BpbGeometry} {n : Nat} (hg : g.Sound n) {d : Disk} {slot : DirectorySlot} {e : Entry}

theorem does_putDirectoryEntry (hvalid : validSlot g slot = true) (hlba : slot.lba < g.totalSectors) :
    Does g.totalSectors (putDirectoryEntry g slot e) d (.ok (.ok ())) (putSlot d slot e) := by
  unfold putDirectoryEntry
  rw [if_neg (by rw [hvalid]; decide)]
  refine .bind (Does.attempt (.of_value (.read hlba) rfl)) ?_
  exact .bind (Does.attempt (.write .data hlba _)) (.pure _)

theorem does_publishEntry (hvalid : validSlot g slot = true) (hlba : slot.lba < g.totalSectors)
    (tail fresh : Nat) :
    Does g.totalSectors (publishEntry (some g) g slot e tail fresh) d (.ok (.ok slot)) (putSlot d slot e) := by
  unfold publishEntry
  exact .bind (does_putDirectoryEntry hvalid hlba).attempt (.pure _)

theorem createDirectoryEntry_eq (hm : g.mirroringEnabled = true) {name : CString} {encoded : ShortName}
    (henc : encodeComponent name = some encoded) (c : Nat) (entry : Entry) :
    createDirectoryEntry (some g) c name entry = (findInDirectory g c encoded).attempt >>= fun r =>
      match r with
      | .error status => pure (.error (status, true))
      | .ok (.found _ _) => pure (.error (.alreadyExists, true))
      | .ok (.notFound free tail) => createAbsent (some g) g (setName entry encoded) free tail := by
  have hready : geometryForWrite (some g) = pure g := by
    unfold geometryForWrite
    dsimp only
    rw [if_neg (by rw [hm]; decide)]
  refine Exec.ext fun dev => ?_
  unfold createDirectoryEntry
  rw [henc]
  dsimp only
  rw [hready]
  rfl

include hg

theorem does_createDirectoryEntry (hm : g.mirroringEnabled = true) {c tail fresh : Nat} {name : CString}
    {encoded : ShortName} (entry : Entry) {free : FreeSearch} {d' : Disk} {chain chain' : List Nat}
    (henc : encodeComponent name = some encoded)
    (hfind : value (findInDirectory g c encoded) d = .ok (.notFound free tail))
    (hprepared : Prepared g d c chain tail slot fresh d' chain')
    (hprepare : Does g.totalSectors (prepareSlot (some g) g free tail) d (.ok (slot, fresh)) d') :
    Does g.totalSectors (createDirectoryEntry (some g) c name entry) d (.ok (.ok slot))
      (putSlot d' slot (setName entry encoded)) := by
  obtain ⟨pre, post, hslots, -⟩ := hprepared.vacant
  have hmem : slot ∈ dirSlots g chain' := by
    rw [hslots]
    exact List.mem_append_right _ List.mem_cons_self
  obtain ⟨hvalid, -, hlba⟩ := slot_bounds hg hprepared.linked.valid hmem
  rw [createDirectoryEntry_eq hm henc]
  refine .bind (Does.attempt (.of_value (reads_findInDirectory _ _) hfind)) ?_
  dsimp only
  rw [createAbsent_eq]
  exact .bind hprepare.attempt (does_publishEntry hvalid hlba tail fresh)

end Publish

structure Untouched (g : BpbGeometry) (d d' : Disk) (clusters : List Nat) : Prop where
  sectors : ∀ lba, lba < g.fatBeginLba ∨ g.firstDataLba ≤ lba →
    (∀ x ∈ clusters, ∀ i, i < g.sectorsPerCluster → lba ≠ g.dataLba x i) → d' lba = d lba
  entries : ∀ k x, k < g.fatCount → validCluster g x = true → x ∉ clusters →
    fatEntry g d' k x = fatEntry g d k x

section Untouched
variable {g : BpbGeometry} {n : Nat} (hg : g.Sound n) {d d' d'' : Disk} {l l' : List Nat}

theorem Untouched.refl (g : BpbGeometry) (d : Disk) (l : List Nat) : Untouched g d d l :=
  ⟨fun _ _ _ => rfl, fun _ _ _ _ _ => rfl⟩

theorem Untouched.trans (h : Untouched g d d' l) (h' : Untouched g d' d'' l) : Untouched g d d'' l where
  sectors := fun lba hlba hout => (h'.sectors lba hlba hout).trans (h.sectors lba hlba hout)
  entries := fun k x hk hx hout => (h'.entries k x hk hx hout).trans (h.entries k x hk hx hout)

theorem Untouched.mono (h : Untouched g d d' l) (hsub : l ⊆ l') : Untouched g d d' l' where
  sectors := fun lba hlba hout => h.sectors lba hlba fun x hx => hout x (hsub hx)
  entries := fun k x hk hx hout => h.entries k x hk hx fun hmem => hout (hsub hmem)

include hg

theorem untouched_update {slot : DirectorySlot} {s : Sector} (hvalid : ∀ x ∈ l, validCluster g x = true)
    (hslot : slot ∈ dirSlots g l) : Untouched g d (Function.update d slot.lba s) l where
  sectors := by
    intro lba _ hout
    obtain ⟨x, hx, i, j, hi, -, rfl⟩ := mem_dirSlots.mp hslot
    exact Function.update_of_ne (hout x hx i hi) _ _
  entries := fun k x hk hx _ => fatEntry_update hg (slot_lba hg hvalid hslot) hx hk

theorem untouched_grown {tail fresh : Nat} (hfresh : validCluster g fresh = true) :
    Untouched g d (grown g tail fresh d) [tail, fresh] where
  sectors := by
    intro lba hlba hout
    unfold grown
    rw [patchFat_outside hlba]
    refine if_neg fun hin => ?_
    refine hout fresh (by simp) (lba - g.dataLba fresh 0) ?_ ?_
    · unfold BpbGeometry.dataLba at hin ⊢
      omega
    · unfold BpbGeometry.dataLba at hin ⊢
      omega
  entries := by
    intro k x hk hx hout
    have hnone : Patch.grow tail fresh k x = none := by
      unfold Patch.grow
      rw [if_neg fun h => hout (by simp [h]), if_neg fun h => hout (by simp [h])]
    unfold grown
    rw [fatEntry_patchFat hg _ _ hx hk, hnone]
    exact fatEntry_fillSectors hg hfresh hx hk _

theorem Prepared.untouched {c tail fresh : Nat} {chain chain' : List Nat} {slot : DirectorySlot}
    (h : Prepared g d c chain tail slot fresh d' chain') : Untouched g d d' chain' := by
  have hvalid := h.linked.valid
  rcases h.change with ⟨-, rfl, rfl | ⟨marker, hmarker, rfl⟩⟩ | ⟨hfresh, rfl, -, htail, rfl⟩
  · exact .refl g _ _
  · exact untouched_update hg hvalid hmarker
  · refine (untouched_grown hg hfresh.1).mono fun x hx => ?_
    rcases List.mem_cons.mp hx with rfl | hx
    · exact List.mem_append_left _ htail
    · exact List.mem_append_right _ hx

theorem Untouched.chain (h : Untouched g d d' l) (hvalid : ∀ x ∈ l, validCluster g x = true) {c : Nat}
    (hchain : Chain g d c l') (hdisjoint : List.Disjoint l' l) :
    Chain g d' c l' ∧ ∀ x ∈ l', ∀ i, i < g.sectorsPerCluster → d' (g.dataLba x i) = d (g.dataLba x i) := by
  constructor
  · refine hchain.congr fun x hx => ?_
    have hv := hchain.valid x hx
    unfold link
    rw [if_pos hv, if_pos hv, h.entries 0 x hg.fatCountPos hv (hdisjoint hx)]
  · intro x hx i hi
    have hv := hchain.valid x hx
    refine h.sectors _ (Or.inr (dataLba_bounds hg hv hi).1) fun y hy j hj heq => ?_
    rw [(dataLba_inj hv (hvalid y hy) hi hj heq).1] at hx
    exact hdisjoint hx hy

end Untouched

end Linux95.Fat32
