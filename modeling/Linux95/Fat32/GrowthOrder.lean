import Linux95.Fat32.Publication
import Linux95.Fat32.Confinement

/-! A directory's new cluster is cleared before it is linked: at no point of a run, and after no failure,
does the chain lead to a cluster with old contents. -/

namespace Linux95.Fat32
open Base Storage Write

/-- Where some copy of the FAT links the last cluster of the directory on, the next cluster was free and
is blank, apart from the entry that is being created. -/
def LinkedBlank (g : BpbGeometry) (d : Disk) (last : Nat) (published : Entry) (d' : Disk) : Prop :=
  ∀ k, k < g.fatCount → ∀ y, linkOf g (fatEntry g d' k last) = some (some y) →
    Free g d y ∧ ∀ i, i < g.sectorsPerCluster → d' (g.dataLba y i) = Sector.zero ∨
      d' (g.dataLba y i) = Sector.setSlot Sector.zero 0 published

def claimed (g : BpbGeometry) (fresh i : Nat) (d : Disk) : Disk :=
  patchFat g (.linked [fresh]) (fillSectors g fresh Sector.zero i d)

theorem sectors_readStable (t : Disk) : ReadStable (fun dev => dev.sectors = t) where
  read := fun lba => keeps_of_wp fun dev hdev => wp_mono (readSector_wp dev lba)
    (fun _ _ h => h.2.1.trans hdev) (fun _ _ h => h.2.1.trans hdev)

section Order
variable {g : BpbGeometry} {n : Nat} (hg : g.Sound n) {d : Disk} {last fresh : Nat} {published : Entry}
  (hm : g.mirroringEnabled = true) (hagree : ∀ x, validCluster g x = true → Agree g d x)
  (hlast : link g d last = some none)

theorem putDirectoryEntry_wp (slot : DirectorySlot) (e : Entry) (dev : Device) :
    wp (putDirectoryEntry g slot e)
      (fun _ dev' => dev'.sectors = dev.sectors ∨ dev'.sectors = putSlot dev.sectors slot e)
      (fun _ dev' => dev'.sectors = dev.sectors) dev := by
  unfold putDirectoryEntry
  refine wp_ite (fun _ => wp_throw rfl) fun _ => ?_
  refine wp_bind (wp_attempt (readSector_wp dev slot.lba) (Q := fun r dev' => dev'.sectors = dev.sectors ∧
    ∀ s, r = .ok s → s = dev.sectors slot.lba) (E := fun _ _ => False)
    (fun s dev' h => ⟨h.2.1, fun s' hs => Except.ok.inj hs ▸ h.1⟩) (fun e dev' h => ⟨h.2.1, fun s hs => (nomatch hs)⟩))
    ?_ (fun _ _ h => h.elim)
  rintro (e' | s) dev' ⟨hsec, hs⟩
  · exact wp_pure (Or.inl hsec)
  · obtain rfl := hs s rfl
    refine wp_bind (wp_attempt (writeSector_wp dev' .data slot.lba _)
      (Q := fun r dev'' => dev''.sectors = dev.sectors ∨ dev''.sectors = putSlot dev.sectors slot e)
      (E := fun _ _ => False) (fun _ dev'' h => ?_) (fun _ dev'' h => ?_)) ?_ (fun _ _ h => h.elim)
    · right
      rw [h.1, hsec]
      rfl
    · rcases h.2.1 with h | h
      · exact Or.inl (h.trans hsec)
      · right
        rw [h, hsec]
        rfl
    · rintro (e' | u) dev'' hdev
      · refine wp_bind (wp_attempt (readSector_wp dev'' slot.lba) (Q := fun _ dev3 => dev3.sectors = dev''.sectors)
          (E := fun _ _ => False) (fun _ _ h => h.2.1) (fun _ _ h => h.2.1)) ?_ (fun _ _ h => h.elim)
        rintro (e3 | s) dev3 hsec3
        · exact wp_pure (by rw [hsec3]; exact hdev)
        · exact wp_pure (by rw [hsec3]; exact hdev)
      · exact wp_pure hdev

theorem clearEndMarker_wp (slot : DirectorySlot) (dev : Device) :
    wp (clearEndMarker g slot)
      (fun _ dev' => dev'.sectors = dev.sectors ∨ dev'.sectors = clearSlot dev.sectors slot)
      (fun _ dev' => dev'.sectors = dev.sectors ∨ dev'.sectors = clearSlot dev.sectors slot) dev := by
  unfold clearEndMarker
  refine wp_ite (fun _ => wp_throw (Or.inl rfl)) fun _ => ?_
  refine wp_bind (readSector_wp dev slot.lba) ?_ (fun _ _ h => Or.inl h.2.1)
  rintro s dev' ⟨rfl, hsec, -⟩
  refine wp_ite (fun _ => wp_pure (Or.inl hsec)) fun _ => ?_
  refine wp_mono (writeSector_wp dev' .data slot.lba _) (fun _ dev'' h => ?_) (fun _ dev'' h => ?_)
  · right
    rw [h.1, hsec]
    rfl
  · rcases h.2.1 with h | h
    · exact Or.inl (h.trans hsec)
    · right
      rw [h, hsec]
      rfl

include hg

theorem freeQuietly_wp (dev : Device) (hend : ∀ y, link g dev.sectors fresh ≠ some (some y)) :
    wp (freeChainQuietly (some g) fresh)
      (fun _ dev' => PatchedBy g dev.sectors (fun _ c _ => c = fresh) dev'.sectors) (fun _ _ => False) dev := by
  have hfree := freeChain_within (S := (· = fresh)) hg dev (Or.inr rfl) (by
    rintro x y rfl hlink
    exact absurd hlink (hend y))
  unfold freeChainQuietly
  refine wp_bind (wp_attempt hfree (Q := fun _ dev' => PatchedBy g dev.sectors (fun _ c _ => c = fresh) dev'.sectors)
    (E := fun _ _ => False) (fun _ _ h => h) (fun _ _ h => h.2)) ?_ (fun _ _ h => h)
  exact fun _ dev' h => wp_pure h

theorem fillCluster_wp {c : Nat} (hc : validCluster g c = true) (s : Sector) : ∀ k, k ≤ g.sectorsPerCluster →
    ∀ dev : Device, dev.sectors = fillSectors g c s (g.sectorsPerCluster - k) d →
    wp (fillCluster g c s k) (fun _ dev' => dev'.sectors = fillSectors g c s g.sectorsPerCluster d)
      (fun _ dev' => ∃ i, dev'.sectors = fillSectors g c s i d) dev
  | 0, _, dev, hdev => wp_pure hdev
  | k + 1, hk, dev, hdev => by
    have hi : g.sectorsPerCluster - (k + 1) < g.sectorsPerCluster := by omega
    have hnext : Function.update dev.sectors (g.dataLba c (g.sectorsPerCluster - (k + 1))) s =
        fillSectors g c s (g.sectorsPerCluster - k) d := by
      rw [hdev, fillSectors_succ, show g.sectorsPerCluster - (k + 1) + 1 = g.sectorsPerCluster - k by omega]
    unfold fillCluster
    rw [directoryLba_eq hg hc hi]
    refine wp_bind (writeSector_wp dev .data _ s) ?_ ?_
    · rintro _ dev' ⟨hsec, -⟩
      exact fillCluster_wp hc s k (by omega) dev' (hsec.trans hnext)
    · rintro e dev' ⟨-, hcases, -⟩
      rcases hcases with hsec | hsec
      · exact ⟨_, hsec.trans hdev⟩
      · exact ⟨_, hsec.trans hnext⟩

theorem PatchedBy.copies {t d' : Disk} {Q : Nat → Nat → Nat → Prop} (h : PatchedBy g t Q d') :
    PatchedBy g t (fun k c w => k < g.fatCount ∧ Q k c w) d' := by
  obtain ⟨p, rfl, hp⟩ := h
  refine ⟨fun k c => if k < g.fatCount then p k c else none, ?_, fun k c w hw => ?_⟩
  · exact patchFat_congr hg _ fun k c hk => (if_pos hk).symm
  · dsimp only at hw
    split_ifs at hw with hk
    exact ⟨hk, hp k c w hw⟩

theorem PatchedBy.value_cases {t d' : Disk} {Q : Nat → Nat → Nat → Prop} (h : PatchedBy g t Q d') {k c : Nat}
    (hc : validCluster g c = true) (hk : k < g.fatCount) :
    fatEntry g d' k c = fatEntry g t k c ∨ ∃ w, Q k c w ∧ fat28 (fatEntry g d' k c) = w % 2 ^ 28 := by
  obtain ⟨p, rfl, hp⟩ := h
  rw [fatEntry_patchFat hg _ _ hc hk]
  cases hv : p k c with
  | none => exact Or.inl rfl
  | some w =>
    refine Or.inr ⟨w, hp k c w hv, ?_⟩
    show fat28 (fatEntry g t k c / 2 ^ 28 * 2 ^ 28 + w % 2 ^ 28) = w % 2 ^ 28
    unfold fat28
    omega

omit hg in
theorem PatchedBy.data {t d' : Disk} {Q : Nat → Nat → Nat → Prop} (h : PatchedBy g t Q d') {lba : Nat}
    (hlba : g.firstDataLba ≤ lba) : d' lba = t lba := by
  obtain ⟨p, rfl, -⟩ := h
  exact patchFat_outside (Or.inr hlba)

omit hg in
theorem linkOf_eoc {raw : Nat} (h : isEoc raw = true) : linkOf g raw = some none := by
  unfold isEoc at h
  rw [Bool.and_eq_true, decide_eq_true_eq, decide_eq_true_eq] at h
  have hkind : classifyFatEntry (fat28 raw) = .endOfChain := by
    unfold classifyFatEntry
    dsimp only
    rw [fat28_fat28, if_neg (by omega), if_neg (by omega), if_neg (by omega), if_neg (by omega), if_pos (by omega)]
  unfold linkOf
  rw [hkind]
  rfl

theorem linkedBlank_of_values {d' : Disk} (hfresh : Free g d fresh)
    (hblank : ∀ i, i < g.sectorsPerCluster → d' (g.dataLba fresh i) = Sector.zero ∨
      d' (g.dataLba fresh i) = Sector.setSlot Sector.zero 0 published)
    (hvalues : ∀ k, k < g.fatCount → fat28 (fatEntry g d' k last) = fresh ∨ isEoc (fatEntry g d' k last) = true) :
    LinkedBlank g d last published d' := by
  -- the last cluster is linked to a blank one or not at all
  intro k hk y hy
  rcases hvalues k hk with hvalue | heoc
  · have hlow : fat28 fresh = fresh := fat28_of_lt (by have := valid_lt hg hfresh.1; omega)
    rw [linkOf_congr (hvalue.trans hlow.symm), linkOf_cluster hg hfresh.1] at hy
    obtain rfl := Option.some.inj (Option.some.inj hy)
    exact ⟨hfresh, hblank⟩
  · rw [linkOf_eoc heoc] at hy
    cases hy

include hagree hlast

omit hg in
theorem last_eoc {k : Nat} (hk : k < g.fatCount) : isEoc (fatEntry g d k last) = true := by
  have hvalid := link_valid hlast
  unfold link at hlast
  rw [if_pos hvalid] at hlast
  have hzero := isEoc_of_last hlast
  unfold isEoc at hzero ⊢
  rw [hagree last hvalid k hk]
  exact hzero

omit hg in
theorem linkedBlank_of_same {d' : Disk}
    (h : ∀ k, k < g.fatCount → fatEntry g d' k last = fatEntry g d k last) :
    LinkedBlank g d last published d' := by
  -- as long as the entries of the last cluster are what they were, nothing is linked
  intro k hk y hy
  have hvalid := link_valid hlast
  unfold link at hlast
  rw [if_pos hvalid] at hlast
  rw [h k hk, linkOf_congr (hagree last hvalid k hk), hlast] at hy
  cases hy

variable (hfresh : Free g d fresh)
include hfresh

omit hagree in
theorem claimed_last {i : Nat} {d' : Disk} (h : PatchedBy g (claimed g fresh i d) (fun _ c _ => c = fresh) d')
    {k : Nat} (hk : k < g.fatCount) : fatEntry g d' k last = fatEntry g d k last := by
  have hvalid := link_valid hlast
  have hne := free_ne_tail hfresh hlast
  have hnone : Patch.linked [fresh] k last = none := if_neg hne.symm
  rcases h.value_cases hg hvalid hk with heq | ⟨w, hw, -⟩
  · unfold claimed at heq
    rw [heq, fatEntry_patchFat hg _ _ hvalid hk, hnone]
    exact fatEntry_fillSectors hg hfresh.1 hvalid hk i
  · exact absurd hw.symm hne

omit hagree hlast in
theorem claimed_end {i : Nat} {d' : Disk}
    (h : PatchedBy g (claimed g fresh i d) (fun _ c w => c = fresh ∧ w = endMark) d') :
    link g d' fresh = some none := by
  obtain ⟨p, rfl, hp⟩ := h
  cases hv : p 0 fresh with
  | none =>
    unfold claimed
    rw [link_patchFat hg hv, link_patchFat_some hg hfresh.1 (linked_fresh fresh 0), linkOf_endMark]
  | some w => rw [link_patchFat_some hg hfresh.1 hv, (hp 0 fresh w hv).2, linkOf_endMark]

theorem giveBack_wp {i : Nat} (status : Status) (dev : Device)
    (h : PatchedBy g (claimed g fresh i d) (fun _ c w => c = fresh ∧ w = endMark) dev.sectors) {Q : Nat → Device → Prop} :
    wp (do freeChainQuietly (some g) fresh; (throw status : Io Nat)) Q
      (fun _ dev' => LinkedBlank g d last published dev'.sectors) dev := by
  have hlink := claimed_end hg hfresh h
  refine wp_bind (freeQuietly_wp hg dev fun y hy => by rw [hlink] at hy; cases hy) ?_ (fun _ _ h => h.elim)
  intro _ dev' hdev'
  refine wp_throw (linkedBlank_of_same hagree hlast fun k hk => ?_)
  exact claimed_last hg hlast hfresh ((h.mono fun _ _ _ hw => hw.1).trans hdev') hk

theorem linkedBlank_claimed {d' : Disk} (h : PatchedBy g (claimed g fresh g.sectorsPerCluster d)
      (fun k c w => c = fresh ∨ c = last ∧ (w = fresh ∨ w = fat28 (fatEntry g d k last))) d') :
    LinkedBlank g d last published d' := by
  -- once the new cluster is cleared the last one may be linked to it
  have hvalid := link_valid hlast
  have hlow : fresh % 2 ^ 28 = fresh := Nat.mod_eq_of_lt (by have := valid_lt hg hfresh.1; omega)
  refine linkedBlank_of_values hg hfresh (fun i hi => Or.inl ?_) fun k hk => ?_
  · have hlo := (dataLba_bounds hg hfresh.1 hi).1
    unfold claimed at h
    rw [h.data hlo, patchFat_outside (Or.inr hlo)]
    refine if_pos ?_
    unfold BpbGeometry.dataLba
    omega
  · have heoc := last_eoc hagree hlast hk
    rcases h.value_cases hg hvalid hk with heq | ⟨w, hw, heq⟩
    · right
      rw [heq, claimed_last hg hlast hfresh (.refl _ _ _) hk]
      exact heoc
    · rcases hw with hw | ⟨-, rfl | rfl⟩
      · exact absurd hw.symm (free_ne_tail hfresh hlast)
      · exact Or.inl (heq.trans hlow)
      · right
        unfold isEoc at heoc ⊢
        rw [heq, show fat28 (fatEntry g d k last) % 2 ^ 28 = fat28 (fatEntry g d k last) from fat28_fat28 _]
        exact heoc

theorem linkFresh_wp (dev : Device) (hdev : dev.sectors = claimed g fresh g.sectorsPerCluster d) :
    wp (do
        match ← (writeFatEntry (some g) last fresh).attempt with
        | .error status => do
          reclaimIfUnlinked (some g) g last fresh
          throw status
        | .ok () => pure fresh)
      (fun first dev' => first = fresh ∧ dev'.sectors = grown g last fresh d)
      (fun _ dev' => LinkedBlank g d last published dev'.sectors) dev := by
  refine wp_bind (wp_attempt (writeFatEntry_wp hg last fresh dev)
    (Q := fun r dev' => r = .ok () ∧ dev'.sectors = grown g last fresh d ∨ (∃ e, r = .error e) ∧
      HalfWritten g dev.sectors last fresh dev'.sectors) (E := fun _ _ => False)
    (fun _ dev' h => Or.inl ⟨rfl, ?_⟩) (fun e dev' h => Or.inr ⟨⟨e, rfl⟩, ?_⟩)) ?_ (fun _ _ h => h.elim)
  · rw [h.1, hdev]
    exact patchFat_link last fresh
  · rcases h.2 with hsec | ⟨-, -, -, hhalf⟩
    · rw [hsec]
      exact .refl _ _ _
    · exact hhalf
  rintro r dev' (⟨rfl, hsec⟩ | ⟨⟨e, rfl⟩, hhalf⟩)
  · exact wp_pure ⟨rfl, hsec⟩
  have hvalues : PatchedBy g (claimed g fresh g.sectorsPerCluster d)
      (fun k c w => c = fresh ∨ c = last ∧ (w = fresh ∨ w = fat28 (fatEntry g d k last))) dev'.sectors := by
    rw [hdev] at hhalf
    refine (hhalf.copies hg).mono fun k c w hw => Or.inr ⟨hw.2.1, hw.2.2.imp id fun hw' => ?_⟩
    rw [hw', claimed_last hg hlast hfresh (.refl _ _ _) hw.1]
  have hend : link g dev'.sectors fresh = some none := by
    rw [(hhalf.link_cases hg (link_valid hlast)).1 fresh (free_ne_tail hfresh hlast), hdev]
    exact claimed_end hg hfresh (i := g.sectorsPerCluster) (.refl _ _ _)
  have := sectors_readStable dev'.sectors
  have hcheck : Keeps (fun dev'' => dev''.sectors = dev'.sectors) (tailUnlinked g last g.fatCount) :=
    keeps_tailUnlinked last g.fatCount
  have hblank : ∀ t, PatchedBy g dev'.sectors (fun _ c _ => c = fresh) t → LinkedBlank g d last published t :=
    fun t ht => linkedBlank_claimed hg hagree hlast hfresh (hvalues.trans (ht.mono fun _ _ _ hc => Or.inl hc))
  have hreclaim : wp (reclaimIfUnlinked (some g) g last fresh)
      (fun _ dev'' => PatchedBy g dev'.sectors (fun _ c _ => c = fresh) dev''.sectors)
      (fun _ dev'' => PatchedBy g dev'.sectors (fun _ c _ => c = fresh) dev''.sectors) dev' := by
    refine wp_bind (hcheck.wp rfl) ?_ (fun _ dev'' hsec => by rw [hsec]; exact .refl _ _ _)
    rintro (_ | _) dev'' hsec
    · exact wp_pure (by rw [hsec]; exact .refl _ _ _)
    · rw [← hsec]
      exact wp_mono (freeQuietly_wp hg dev'' fun y hy => by rw [hsec, hend] at hy; cases hy)
        (fun _ _ h => h) (fun _ _ h => h.elim)
  exact wp_bind hreclaim (fun _ dev'' h => wp_throw (hblank _ h)) (fun _ dev'' h => hblank _ h)

/-- Growth on any drive: the last cluster is linked only after the new one has been cleared. -/
theorem growFresh_wp (dev : Device) (hdev : dev.sectors = patchFat g (.linked [fresh]) d) :
    wp (do
        match ← (fillCluster g fresh Sector.zero g.sectorsPerCluster).attempt with
        | .error status => do
          freeChainQuietly (some g) fresh
          throw status
        | .ok () =>
          match ← (writeFatEntry (some g) fresh 0x0FFFFFFF).attempt with
          | .error status => do
            freeChainQuietly (some g) fresh
            throw status
          | .ok () =>
            match ← (writeFatEntry (some g) last fresh).attempt with
            | .error status => do
              reclaimIfUnlinked (some g) g last fresh
              throw status
            | .ok () => pure fresh)
      (fun first dev' => first = fresh ∧ dev'.sectors = grown g last fresh d)
      (fun _ dev' => LinkedBlank g d last published dev'.sectors) dev := by
  have hclaimed : ∀ i, fillSectors g fresh Sector.zero i (patchFat g (.linked [fresh]) d) = claimed g fresh i d :=
    fun i => (patchFat_fillSectors hg hfresh.1 _ i).symm
  have hstart : dev.sectors = fillSectors g fresh Sector.zero (g.sectorsPerCluster - g.sectorsPerCluster)
      (patchFat g (.linked [fresh]) d) := by
    rw [Nat.sub_self, fillSectors_zero]
    exact hdev
  refine wp_bind (wp_attempt (fillCluster_wp hg hfresh.1 Sector.zero g.sectorsPerCluster (le_refl _) dev hstart)
    (Q := fun r dev' => r = .ok () ∧ dev'.sectors = claimed g fresh g.sectorsPerCluster d ∨
      (∃ e, r = .error e) ∧ ∃ i, dev'.sectors = claimed g fresh i d)
    (E := fun _ _ => False) (fun _ _ h => Or.inl ⟨rfl, h.trans (hclaimed _)⟩)
    (fun e _ h => Or.inr ⟨⟨e, rfl⟩, h.imp fun i hi => hi.trans (hclaimed i)⟩)) ?_ (fun _ _ h => h.elim)
  rintro r dev' (⟨rfl, hfilled⟩ | ⟨⟨e, rfl⟩, i, hfilled⟩)
  swap
  · exact giveBack_wp hg hagree hlast hfresh (i := i) e dev' (by rw [hfilled]; exact .refl _ _ _)
  refine wp_bind (wp_attempt (writeFatEntry_wp hg fresh endMark dev')
    (Q := fun r dev'' => r = .ok () ∧ dev''.sectors = dev'.sectors ∨ (∃ e, r = .error e) ∧
      PatchedBy g dev'.sectors (fun _ c w => c = fresh ∧ w = endMark) dev''.sectors) (E := fun _ _ => False)
    (fun _ dev'' h => Or.inl ⟨rfl, ?_⟩) (fun e dev'' h => Or.inr ⟨⟨e, rfl⟩, ?_⟩)) ?_ (fun _ _ h => h.elim)
  · rw [h.1, hfilled]
    exact patchFat_remark hg hfresh.1 _
  · rcases h.2 with hsec | ⟨-, -, -, hhalf⟩
    · rw [hsec]
      exact .refl _ _ _
    · refine (PatchedBy.copies hg hhalf).mono fun k c w hw => ⟨hw.2.1, hw.2.2.elim id fun hw' => ?_⟩
      rw [hw', hfilled]
      exact fat28_patchFat hg hfresh.1 hw.1 (by decide) (linked_fresh fresh k)
  rintro r dev'' (⟨rfl, hsec⟩ | ⟨⟨e, rfl⟩, hhalf⟩)
  · exact linkFresh_wp hg hagree hlast hfresh dev'' (hsec.trans hfilled)
  · rw [hfilled] at hhalf
    exact giveBack_wp hg hagree hlast hfresh (i := g.sectorsPerCluster) e dev'' hhalf

omit hfresh in
theorem growDirectory_wp (hm : g.mirroringEnabled = true) (dev : Device) (hdev : dev.sectors = d) :
    wp (growDirectory (some g) g last)
      (fun fresh dev' => Free g d fresh ∧ dev'.sectors = grown g last fresh d)
      (fun _ dev' => LinkedBlank g d last published dev'.sectors) dev := by
  have hvalid := link_valid hlast
  have hused : isFree g d last = false := by
    by_contra hfree
    exact free_ne_tail ⟨hvalid, Bool.of_not_eq_false hfree⟩ hlast rfl
  unfold growDirectory
  refine wp_bind (allocateChain_wp hg hm hagree 1 dev hdev) ?_ ?_
  · rintro fresh dev' ⟨hlen, hfirst, hsec⟩
    rw [freeAmong_all] at hlen hfirst hsec
    obtain ⟨x, rest, hlist⟩ := List.exists_cons_of_length_pos (show 0 < (freeClusters g d).length by omega)
    rw [List.nil_append, hlist, List.take_succ_cons, List.take_zero] at hfirst hsec
    obtain rfl : fresh = x := hfirst
    have hfresh : Free g d fresh := mem_freeClusters (by rw [hlist]; exact List.mem_cons_self)
    refine wp_mono (growFresh_wp hg hagree hlast hfresh dev' hsec) ?_ (fun _ _ h => h)
    rintro first dev'' ⟨rfl, h⟩
    exact ⟨hfresh, h⟩
  · rintro e dev' (⟨-, -, hsec⟩ | ⟨-, -, hpatched⟩)
    · refine linkedBlank_of_same hagree hlast fun k hk => ?_
      rw [hsec]
    · exact linkedBlank_of_same hagree hlast fun k hk => patchedBy_used hg hpatched hk hvalid hused

omit hg hagree hlast hfresh in
theorem Vacancy.slots (hg : g.Sound n) {c tail : Nat} {chain : List Nat} {free : FreeSearch}
    (hchain : Chain g d c chain) (h : Vacancy g d chain free tail) :
    (free.freeSlot.lba ≠ 0 → free.freeSlot ∈ dirSlots g chain) ∧
      ∃ marker, value (markerFor g free tail) d = .ok marker ∧ (∀ slot, marker = some slot → slot ∈ dirSlots g chain) ∧
        (free.freeSlot.lba = 0 ∨ (free.freeIsEnd = true ∧ marker.isNone = true) → ∃ before, chain = before ++ [tail]) := by
  cases h with
  | deleted pre post slot _ split used deleted =>
    have hmem : slot ∈ dirSlots g chain := by rw [split]; exact List.mem_append_right _ List.mem_cons_self
    obtain ⟨-, hpos, -⟩ := slot_bounds hg hchain.valid hmem
    refine ⟨fun _ => hmem, none, rfl, fun _ h => (nomatch h), ?_⟩
    rintro (h | h)
    · exact absurd h (Nat.pos_iff_ne_zero.mp hpos)
    · exact nomatch h.1
  | atEnd before after _ pre post slot clusters split used unused =>
    subst clusters
    have hslots := dirSlots_split split before after
    have hmem : slot ∈ dirSlots g (before ++ tail :: after) := by
      rw [hslots]
      exact List.mem_append_right _ List.mem_cons_self
    obtain ⟨-, hpos, -⟩ := slot_bounds hg hchain.valid hmem
    refine ⟨fun _ => hmem, _, value_nextMarker hg hchain split, fun marker hmarker => ?_, ?_⟩
    · rw [hslots]
      exact List.mem_append_right _ (List.mem_cons_of_mem slot (List.mem_of_mem_head? hmarker))
    · rintro (h | ⟨-, h⟩)
      · exact absurd h (Nat.pos_iff_ne_zero.mp hpos)
      · have hnil := (List.append_eq_nil_iff.mp (List.head?_eq_none_iff.mp (Option.isNone_iff_eq_none.mp h))).2
        cases after with
        | nil => exact ⟨before, rfl⟩
        | cons x after =>
          have hlen := length_clusterSlots (g := g) x
          have hspc := hg.spcPos
          rw [dirSlots_cons] at hnil
          rw [(List.append_eq_nil_iff.mp hnil).1, List.length_nil] at hlen
          omega
  | full before _ clusters used =>
    exact ⟨fun h => absurd rfl h, none, rfl, fun _ h => (nomatch h), fun _ => ⟨before, clusters⟩⟩

end Order

def SlotReady (g : BpbGeometry) (d : Disk) (chain : List Nat) (last tail : Nat) (slot : DirectorySlot) (fresh : Nat)
    (d' : Disk) : Prop :=
  fresh = 0 ∧ slot ∈ dirSlots g chain ∧ (d' = d ∨ ∃ marker ∈ dirSlots g chain, d' = clearSlot d marker) ∨
    Free g d fresh ∧ tail = last ∧ (slot = ⟨g.dataLba fresh 0, 0⟩ ∨ slot ∈ dirSlots g chain) ∧
      d' = grown g last fresh d

section Create
variable {g : BpbGeometry} {n : Nat} (hg : g.Sound n) {d : Disk} {c last tail : Nat} {before : List Nat}
  {published : Entry} (hagree : ∀ x, validCluster g x = true → Agree g d x)
  (hchain : Chain g d c (before ++ [last]))
include hg hagree hchain

theorem linkedBlank_data {d' : Disk} {slot : DirectorySlot} (hslot : slot ∈ dirSlots g (before ++ [last]))
    (h : ∀ lba, lba ≠ slot.lba → d' lba = d lba) : LinkedBlank g d last published d' := by
  have hvalid := link_valid hchain.link_split
  refine linkedBlank_of_same hagree hchain.link_split fun k hk => ?_
  have hlba := slot_lba hg hchain.valid hslot
  have hfat := (fatLba_bounds hg hvalid hk).2.2
  unfold fatEntry
  rw [h _ (by omega)]

theorem prepareSlot_wp (hm : g.mirroringEnabled = true) {free : FreeSearch}
    (hvacancy : Vacancy g d (before ++ [last]) free tail) (dev : Device) (hdev : dev.sectors = d) :
    wp (prepareSlot (some g) g free tail)
      (fun r dev' => SlotReady g d (before ++ [last]) last tail r.1 r.2 dev'.sectors)
      (fun _ dev' => LinkedBlank g d last published dev'.sectors) dev := by
  obtain ⟨hfreeSlot, marker, hmarker, hmarkerMem, hgrows⟩ := hvacancy.slots hg hchain
  have hsame : ∀ t, t = d → LinkedBlank g d last published t := fun t ht =>
    linkedBlank_of_same hagree hchain.link_split fun k hk => by rw [ht]
  unfold prepareSlot
  refine wp_bind ((reads_markerFor free tail).wp dev) ?_ (fun _ dev' h => hsame _ (h.1.trans hdev))
  rintro marker' dev' ⟨hvalue, hsec, -⟩
  rw [hdev, hmarker] at hvalue
  obtain rfl := Except.ok.inj hvalue
  rw [hdev] at hsec
  refine wp_ite (fun hgrow => ?_) fun hno => ?_
  · obtain ⟨before', hsplit⟩ := hgrows hgrow
    obtain rfl : last = tail := (List.append_inj_right' hsplit rfl |> List.cons.inj).1
    refine wp_bind (growDirectory_wp hg hagree hchain.link_split hm dev' hsec) ?_ (fun _ _ h => h)
    rintro fresh dev'' ⟨hfresh, hgrown⟩
    rw [directoryLba_eq hg hfresh.1 hg.spcPos]
    refine wp_pure (Or.inr ⟨hfresh, rfl, ?_, hgrown⟩)
    split_ifs with hzero
    · exact Or.inl rfl
    · exact Or.inr (hfreeSlot hzero)
  · have hmem := hfreeSlot fun h => hno (Or.inl h)
    cases hmarker' : marker with
    | none =>
      refine wp_bind (R := fun _ (dev'' : Device) => dev''.sectors = d) (F := fun _ _ => False) (wp_pure hsec)
        (fun _ dev'' h => wp_pure (Or.inl ⟨rfl, hmem, Or.inl h⟩)) (fun _ _ h => h.elim)
    | some slot =>
      have hslot := hmarkerMem slot hmarker'
      refine wp_bind (clearEndMarker_wp slot dev') ?_ ?_
      · intro _ dev'' h
        rw [hsec] at h
        exact wp_pure (Or.inl ⟨rfl, hmem, h.imp id fun h => ⟨slot, hslot, h⟩⟩)
      · rintro _ dev'' (h | h)
        · exact hsame _ (h.trans hsec)
        · refine linkedBlank_data hg hagree hchain hslot fun lba hlba => ?_
          rw [h, hsec]
          exact Function.update_of_ne hlba _ _

omit hagree hchain in
theorem grown_value {fresh k : Nat} (hlast : validCluster g last = true) (hfresh : Free g d fresh)
    (hk : k < g.fatCount) : fat28 (fatEntry g (grown g last fresh d) k last) = fresh := by
  have hpatch : Patch.grow last fresh k last = some fresh := if_pos rfl
  have hlt := valid_lt hg hfresh.1
  exact fat28_patchFat hg hlast hk (by omega) hpatch

omit hagree in
theorem linkedBlank_grown {fresh : Nat} {slot : DirectorySlot} {t d' : Disk} (hfresh : Free g d fresh)
    (hslot : slot = ⟨g.dataLba fresh 0, 0⟩ ∨ slot ∈ dirSlots g (before ++ [last]))
    (ht : t = grown g last fresh d ∨ t = putSlot (grown g last fresh d) slot published)
    (hpatched : PatchedBy g t (fun _ c w => c = fresh ∨ c = last ∧ (w = endMark ∨ w = fresh)) d') :
    LinkedBlank g d last published d' := by
  -- behind growth the entry is put into the cleared cluster or into an older slot
  have hvalid := link_valid hchain.link_split
  have hlow : fresh % 2 ^ 28 = fresh := Nat.mod_eq_of_lt (by have := valid_lt hg hfresh.1; omega)
  have hfill : ∀ i, i < g.sectorsPerCluster → grown g last fresh d (g.dataLba fresh i) = Sector.zero :=
    fun i hi => grown_fresh hg hfresh.1 hi
  have hslotLba : g.firstDataLba ≤ slot.lba := by
    rcases hslot with rfl | hslot
    · exact (dataLba_bounds hg hfresh.1 hg.spcPos).1
    · exact slot_lba hg hchain.valid hslot
  refine linkedBlank_of_values hg hfresh (fun i hi => ?_) fun k hk => ?_
  · rw [hpatched.data (dataLba_bounds hg hfresh.1 hi).1]
    rcases ht with rfl | rfl
    · exact Or.inl (hfill i hi)
    · by_cases hlba : g.dataLba fresh i = slot.lba
      · rcases hslot with rfl | hslot
        · right
          unfold putSlot
          dsimp only at hlba ⊢
          rw [hlba, Function.update_self, hfill 0 hg.spcPos]
        · obtain ⟨x, hx, j, o, hj, -, rfl⟩ := mem_dirSlots.mp hslot
          have hsame := (dataLba_inj hfresh.1 (hchain.valid x hx) hi hj hlba).1
          exact absurd (hsame ▸ hx) (free_notMem hchain hfresh)
      · left
        unfold putSlot
        rw [Function.update_of_ne hlba]
        exact hfill i hi
  · have hgrown : fat28 (fatEntry g t k last) = fresh := by
      rcases ht with rfl | rfl
      · exact grown_value hg hvalid hfresh hk
      · rw [show fatEntry g (putSlot _ slot published) k last = _ from fatEntry_update hg hslotLba hvalid hk]
        exact grown_value hg hvalid hfresh hk
    rcases hpatched.value_cases hg hvalid hk with heq | ⟨w, hw, heq⟩
    · exact Or.inl (heq ▸ hgrown)
    · rcases hw with hw | ⟨-, rfl | rfl⟩
      · exact absurd hw.symm (free_ne_tail hfresh hchain.link_split)
      · right
        unfold isEoc
        rw [heq]
        decide
      · exact Or.inl (heq.trans hlow)

omit hagree hchain in
theorem unlinkGrown_wp {fresh : Nat} (dev : Device) (hlast : validCluster g last = true) (hfresh : fresh ≠ last)
    (hvalues : ∀ k, k < g.fatCount → fat28 (fatEntry g dev.sectors k last) = fresh)
    (hend : link g dev.sectors fresh = some none) :
    wp (unlinkGrown (some g) last fresh)
      (fun _ dev' => PatchedBy g dev.sectors (fun _ c w => c = fresh ∨ c = last ∧ (w = endMark ∨ w = fresh)) dev'.sectors)
      (fun _ _ => False) dev := by
  -- the way back after growth: the last cluster gets its end mark back before the new one is freed
  have hhalf : wp (writeFatEntry (some g) last endMark).attempt
      (fun _ dev' => HalfWritten g dev.sectors last endMark dev'.sectors) (fun _ _ => False) dev := by
    refine wp_attempt (writeFatEntry_wp hg last endMark dev) (fun _ dev' h => ?_) (fun _ dev' h => ?_)
    · rw [h.1]
      exact halfWritten_entry g _ _ _
    · rcases h.2 with hsec | ⟨-, -, -, hhalf⟩
      · rw [hsec]
        exact .refl _ _ _
      · exact hhalf
  have hstep : ∀ t, HalfWritten g dev.sectors last endMark t →
      PatchedBy g dev.sectors (fun _ c w => c = fresh ∨ c = last ∧ (w = endMark ∨ w = fresh)) t := by
    intro t ht
    refine (PatchedBy.copies hg ht).mono fun k c w hw => Or.inr ⟨hw.2.1, hw.2.2.imp id fun hw' => ?_⟩
    rw [hw', hvalues k hw.1]
  unfold unlinkGrown
  refine wp_bind hhalf ?_ (fun _ _ h => h)
  rintro (e | _) dev' h
  · exact wp_pure (hstep _ h)
  · have hlink : link g dev'.sectors fresh = some none := by
      rw [(h.link_cases hg hlast).1 fresh hfresh]
      exact hend
    refine wp_mono (freeQuietly_wp hg dev' fun y hy => by rw [hlink] at hy; cases hy) ?_ (fun _ _ h => h)
    exact fun _ dev'' h' => (hstep _ h).trans (h'.mono fun _ _ _ hc => Or.inl hc)

omit hg hchain hagree in
theorem putAttempt_wp (slot : DirectorySlot) (dev : Device) :
    wp (putDirectoryEntry g slot published).attempt
      (fun _ dev' => dev'.sectors = dev.sectors ∨ dev'.sectors = putSlot dev.sectors slot published)
      (fun _ _ => False) dev :=
  wp_attempt (putDirectoryEntry_wp slot published dev) (fun _ _ h => h) (fun _ _ h => Or.inl h)

theorem publishEntry_wp {slot : DirectorySlot} {fresh : Nat} (dev : Device)
    (hready : SlotReady g d (before ++ [last]) last tail slot fresh dev.sectors) :
    wp (publishEntry (some g) g slot published tail fresh)
      (fun _ dev' => LinkedBlank g d last published dev'.sectors) (fun _ _ => False) dev := by
  have hvalid := link_valid hchain.link_split
  rcases hready with ⟨rfl, hslot, hsec⟩ | ⟨hfresh, rfl, hslot, hsec⟩
  · have hdone : ∀ t, t = dev.sectors ∨ t = putSlot dev.sectors slot published → LinkedBlank g d last published t := by
      intro t ht
      refine linkedBlank_of_same hagree hchain.link_split fun k hk => ?_
      have hstart : fatEntry g dev.sectors k last = fatEntry g d k last := by
        rcases hsec with hsec | ⟨marker, hmarker, hsec⟩
        · rw [hsec]
        · rw [hsec]
          exact fatEntry_update hg (slot_lba hg hchain.valid hmarker) hvalid hk
      rw [← hstart]
      rcases ht with rfl | rfl
      · rfl
      · exact fatEntry_update hg (slot_lba hg hchain.valid hslot) hvalid hk
    unfold publishEntry
    refine wp_bind (putAttempt_wp slot dev) ?_ (fun _ _ h => h)
    rintro (e | (_ | _) | _) dev' h
    · exact wp_pure (hdone _ h)
    · exact wp_pure (hdone _ h)
    · exact wp_pure (hdone _ h)
    · exact wp_pure (hdone _ h)
  · have hdone : ∀ t t', (t = grown g tail fresh d ∨ t = putSlot (grown g tail fresh d) slot published) →
        PatchedBy g t (fun _ c w => c = fresh ∨ c = tail ∧ (w = endMark ∨ w = fresh)) t' →
        LinkedBlank g d tail published t' := fun t t' ht => linkedBlank_grown hg hchain hfresh hslot ht
    have hslotLba : g.firstDataLba ≤ slot.lba := by
      rcases hslot with rfl | hslot
      · exact (dataLba_bounds hg hfresh.1 hg.spcPos).1
      · exact slot_lba hg hchain.valid hslot
    unfold publishEntry
    refine wp_bind (putAttempt_wp slot dev) ?_ (fun _ _ h => h)
    rintro (e | (_ | _) | _) dev' h
    · exact wp_pure (hdone _ _ (hsec ▸ h) (.refl _ _ _))
    · exact wp_pure (hdone _ _ (hsec ▸ h) (.refl _ _ _))
    · refine wp_ite (fun _ => wp_pure (hdone _ _ (hsec ▸ h) (.refl _ _ _))) fun _ => ?_
      rw [hsec] at h
      have hentry : ∀ k x, k < g.fatCount → validCluster g x = true →
          fatEntry g dev'.sectors k x = fatEntry g (grown g tail fresh d) k x := by
        intro k x hk hx
        rcases h with h | h
        · rw [h]
        · rw [h]
          exact fatEntry_update hg hslotLba hx hk
      have hend : link g dev'.sectors fresh = some none := by
        have hne := free_ne_tail hfresh hchain.link_split
        have hpatch : Patch.grow tail fresh 0 fresh = some endMark := by
          unfold Patch.grow
          rw [if_neg hne, if_pos rfl]
        have hgrown := link_patchFat_some hg (d := fillSectors g fresh Sector.zero g.sectorsPerCluster d) hfresh.1 hpatch
        unfold link at hgrown ⊢
        rw [if_pos hfresh.1] at hgrown ⊢
        rw [hentry 0 fresh hg.fatCountPos hfresh.1]
        exact hgrown.trans (linkOf_endMark g)
      refine wp_bind (unlinkGrown_wp hg dev' hvalid (free_ne_tail hfresh hchain.link_split) (fun k hk => ?_) hend) ?_
        (fun _ _ h => h)
      · rw [hentry k tail hk hvalid]
        exact grown_value hg hvalid hfresh hk
      · exact fun _ dev'' hpatched => wp_pure (hdone _ _ h hpatched)
    · exact wp_pure (hdone _ _ (hsec ▸ h) (.refl _ _ _))

/-- On any drive, a cluster that `create_directory_entry` links to the directory has been cleared. -/
theorem createDirectoryEntry_wp (hm : g.mirroringEnabled = true) {name : CString} {encoded : ShortName} (entry : Entry)
    (henc : encodeComponent name = some encoded) (dev : Device) (hdev : dev.sectors = d) :
    wp (createDirectoryEntry (some g) c name entry)
      (fun _ dev' => LinkedBlank g d last (setName entry encoded) dev'.sectors) (fun _ _ => False) dev := by
  have hsame : ∀ t, t = d → LinkedBlank g d last (setName entry encoded) t := fun t ht =>
    linkedBlank_of_same hagree hchain.link_split fun k hk => by rw [ht]
  rw [createDirectoryEntry_eq hm henc]
  have hfind := wp_attempt ((reads_findInDirectory c encoded).wp dev) (E := fun _ _ => False)
    (Q := fun r dev' => dev'.sectors = d ∧ ∀ x, r = .ok x → value (findInDirectory g c encoded) d = .ok x)
    (fun a dev' h => ⟨h.2.1.trans hdev, fun x hx => Except.ok.inj hx ▸ hdev ▸ h.1⟩)
    (fun e dev' h => ⟨h.1.trans hdev, fun x hx => (nomatch hx)⟩)
  refine wp_bind hfind ?_ (fun _ _ h => h)
  rintro (e | ⟨slot, found⟩ | ⟨free, tail⟩) dev' ⟨hsec, hvalue⟩
  · exact wp_pure (hsame _ hsec)
  · exact wp_pure (hsame _ hsec)
  · have hnot := hvalue _ rfl
    rcases findInDirectory_cases hg hchain encoded with ⟨slot, -, hfound⟩ | ⟨-, free', tail', hmissing, hvacancy⟩
    · rw [hfound] at hnot
      cases hnot
    · rw [hmissing] at hnot
      obtain ⟨rfl, rfl⟩ := Search.notFound.inj (Except.ok.inj hnot)
      dsimp only
      rw [createAbsent_eq]
      have hprepare : wp (prepareSlot (some g) g free' tail').attempt
          (fun r dev'' => (∃ s : DirectorySlot × Nat, r = .ok s ∧
              SlotReady g d (before ++ [last]) last tail' s.1 s.2 dev''.sectors) ∨
            (∃ e : Status, r = .error e) ∧ LinkedBlank g d last (setName entry encoded) dev''.sectors)
          (fun _ _ => False) dev' :=
        wp_attempt (prepareSlot_wp hg hagree hchain hm hvacancy dev' hsec)
          (fun s _ h => Or.inl ⟨s, rfl, h⟩) (fun e _ h => Or.inr ⟨⟨e, rfl⟩, h⟩)
      refine wp_bind hprepare ?_ (fun _ _ h => h)
      rintro r dev'' (⟨s, rfl, hready⟩ | ⟨⟨e, rfl⟩, hblank⟩)
      · exact publishEntry_wp hg hagree hchain dev'' hready
      · exact wp_pure hblank

end Create

end Linux95.Fat32
