import Linux95.Fat32.Lookalikes
import Linux95.Fat32.NewEntries

/-! `create_directory_entry` on a drive that refuses at most one request. An entry that does not reach the
disk is withdrawn: what can be looked up is as it was, whichever request was refused. -/

namespace Linux95.Fat32
open Base Storage Write

section Put
variable {g : BpbGeometry} {slot : DirectorySlot} {e : Entry} {dev : Device}

theorem putDirectoryEntry_once (honce : dev.Once g.totalSectors) (hvalid : validSlot g slot = true)
    (hlba : slot.lba < g.totalSectors) :
    (dev.faults 0 ≠ .none ∧ ∃ dev', (putDirectoryEntry g slot e).exec dev = (.ok (.error false), dev') ∧
      dev'.sectors = dev.sectors ∧ dev'.Ready g.totalSectors) ∨
    (dev.faults 0 = .none ∧ dev.faults 1 ≠ .none ∧
      ∃ dev', (putDirectoryEntry g slot e).exec dev = (.ok (.error true), dev') ∧
        dev'.sectors = dev.sectors ∧ dev'.Ready g.totalSectors) ∨
    (dev.faults 0 = .none ∧ dev.faults 1 = .none ∧
      ∃ dev', (putDirectoryEntry g slot e).exec dev = (.ok (.ok ()), dev') ∧
        dev'.sectors = putSlot dev.sectors slot e ∧ dev'.Once g.totalSectors) := by
  have hslot : ¬ (!validSlot g slot) = true := by
    rw [hvalid]
    decide
  unfold putDirectoryEntry
  rw [if_neg hslot, Exec.exec_bind, Exec.exec_attempt, honce.exec_read hlba]
  by_cases hread : dev.faults 0 = .none
  swap
  · rw [if_neg hread]
    exact Or.inl ⟨hread, dev.tick, rfl, rfl, (honce.hit hread).1⟩
  rw [if_pos hread]
  dsimp only
  rw [Exec.exec_bind, Exec.exec_attempt, honce.tick.exec_write hlba]
  have hnext : dev.tick.faults 0 = dev.faults 1 := rfl
  by_cases hwrite : dev.faults 1 = .none
  · have htick := honce.tick.tick
    rw [if_pos (hnext.trans hwrite)]
    exact Or.inr (Or.inr ⟨hread, hwrite, _, rfl, rfl, ⟨htick.present, htick.room, htick.clean, htick.single⟩⟩)
  -- behind the refused write the slot can be read
  · have hready := (honce.tick.hit (by rw [hnext]; exact hwrite)).1
    have hready' : Device.Ready { dev.tick.tick with written := (.data, slot.lba) :: dev.tick.written } g.totalSectors :=
      ⟨⟨hready.1.1, hready.1.2⟩, hready.2⟩
    rw [if_neg (by rw [hnext]; exact hwrite)]
    dsimp only
    rw [Exec.exec_bind, Exec.exec_attempt, hready'.once.exec_read hlba, if_pos (hready'.1.2 0)]
    have hobserved : decide (Sector.slot (dev.tick.tick.sectors slot.lba) slot.offset =
        Sector.slot (dev.sectors slot.lba) slot.offset) = true := decide_eq_true rfl
    refine Or.inr (Or.inl ⟨hread, hwrite, Device.tick { dev.tick.tick with written := (.data, slot.lba) :: dev.tick.written },
      ?_, rfl, ⟨⟨hready.1.1, fun n => hready.1.2 (n + 1)⟩, hready.2⟩⟩)
    dsimp only
    rw [hobserved]
    rfl

end Put

/-- The disk after a publication was withdrawn: a cluster that the directory had grown by is taken out of
its chain again. -/
def withdrawn (g : BpbGeometry) (tail fresh : Nat) (d t : Disk) : Disk :=
  if fresh = 0 then t
  else patchFat g (.entry tail endMark) (fillSectors g fresh Sector.zero g.sectorsPerCluster d)

def Calm (g : BpbGeometry) (d d' : Disk) : Prop := ∀ c, Directory g d c → Alike g d d' c

section Withdraw
variable {g : BpbGeometry} {n : Nat} (hg : g.Sound n) {d t : Disk} {c tail fresh : Nat} {chain chain' : List Nat}
  {slot : DirectorySlot}
include hg

omit hg in
theorem Prepared.fresh_ne (h : Prepared g d c chain tail slot fresh t chain') : fresh ≠ 0 ↔
    Free g d fresh ∧ chain' = chain ++ [fresh] ∧ link g d tail = some none ∧ tail ∈ chain ∧
      t = grown g tail fresh d := by
  constructor
  · intro hne
    exact h.change.resolve_left fun hzero => hne hzero.1
  · rintro ⟨hfree, -⟩ rfl
    have hv := validCluster_iff.mp hfree.1
    omega

theorem Prepared.slot_bounds (h : Prepared g d c chain tail slot fresh t chain') :
    validSlot g slot = true ∧ slot.lba < g.totalSectors ∧ slot ∈ dirSlots g chain' := by
  obtain ⟨pre, post, hslots, -⟩ := h.vacant
  have hmem : slot ∈ dirSlots g chain' := by
    rw [hslots]
    exact List.mem_append_right _ List.mem_cons_self
  obtain ⟨hvalid, -, hlba⟩ := Fat32.slot_bounds hg h.linked.valid hmem
  exact ⟨hvalid, hlba, hmem⟩

theorem does_unlinkGrown (hm : g.mirroringEnabled = true) (hagree : ∀ x, validCluster g x = true → Agree g d x)
    (hfresh : Free g d fresh) (htail : link g d tail = some none) :
    Does g.totalSectors (unlinkGrown (some g) tail fresh) (grown g tail fresh d) (.ok ())
      (patchFat g (.entry tail endMark) (fillSectors g fresh Sector.zero g.sectorsPerCluster d)) := by
  have hvalid := link_valid htail
  have hne := free_ne_tail hfresh htail
  have hagree' : Agree g (grown g tail fresh d) tail := by
    intro k hk
    have hlt : fresh < 2 ^ 28 := by
      have hv := valid_lt hg hfresh.1
      omega
    unfold grown
    rw [fat28_patchFat hg hvalid hk hlt (if_pos rfl), fat28_patchFat hg hvalid hg.fatCountPos hlt (if_pos rfl)]
  have hmark := does_writeFatEntry hg hm hvalid entryValue_endMark hagree'
  have hback : patchFat g (.entry tail endMark) (grown g tail fresh d) =
      patchFat g (.linked [fresh]) (patchFat g (.entry tail endMark)
        (fillSectors g fresh Sector.zero g.sectorsPerCluster d)) := by
    unfold grown
    rw [patchFat_patchFat, patchFat_patchFat]
    congr 1
    funext k x
    unfold Patch.entry Patch.grow Patch.linked
    rw [chainValue_cons]
    by_cases hx : x = tail
    · have hxf : x ≠ fresh := fun h => hne (h.symm.trans hx)
      rw [if_pos hx, if_pos hx, if_neg hxf]
      rfl
    · rw [if_neg hx, if_neg hx]
      split_ifs <;> rfl
  have hagreeMark : ∀ x, validCluster g x = true → Agree g (patchFat g (.entry tail endMark)
      (fillSectors g fresh Sector.zero g.sectorsPerCluster d)) x := by
    intro x hx
    by_cases hxt : x = tail
    · subst hxt
      intro k hk
      rw [fat28_patchFat hg hx hk (by decide) (if_pos rfl), fat28_patchFat hg hx hg.fatCountPos (by decide) (if_pos rfl)]
    · rw [agree_patchFat hg hx fun k _ => if_neg hxt]
      exact agree_fillSectors hg hfresh.1 _ hagree x hx
  have hfreeMark : Free g (patchFat g (.entry tail endMark)
      (fillSectors g fresh Sector.zero g.sectorsPerCluster d)) fresh := by
    refine ⟨hfresh.1, ?_⟩
    have hnone : Patch.entry tail endMark 0 fresh = none := if_neg hne
    unfold isFree
    rw [fatEntry_patchFat hg _ _ hfresh.1 hg.fatCountPos, hnone]
    dsimp only
    rw [fatEntry_fillSectors hg hfresh.1 hfresh.1 hg.fatCountPos]
    exact hfresh.2
  unfold unlinkGrown
  rw [hback] at hmark
  exact .bind hmark.attempt (does_freeQuietly hg hm hagreeMark hfreeMark)

theorem publishEntry_once (hm : g.mirroringEnabled = true) (hagree : ∀ x, validCluster g x = true → Agree g d x)
    (hprepared : Prepared g d c chain tail slot fresh t chain') (e : Entry) {dev : Device}
    (honce : dev.Once g.totalSectors) (hdev : dev.sectors = t) :
    (dev.faults 0 ≠ .none ∧ ∃ dev', (publishEntry (some g) g slot e tail fresh).exec dev =
        (.ok (.error (.ioError, false)), dev') ∧ dev'.sectors = t ∧ dev'.Ready g.totalSectors) ∨
    (dev.faults 0 = .none ∧ dev.faults 1 ≠ .none ∧ ∃ dev', (publishEntry (some g) g slot e tail fresh).exec dev =
        (.ok (.error (.ioError, true)), dev') ∧ dev'.sectors = withdrawn g tail fresh d t ∧
        dev'.Ready g.totalSectors) ∨
    (dev.faults 0 = .none ∧ dev.faults 1 = .none ∧ ∃ dev', (publishEntry (some g) g slot e tail fresh).exec dev =
        (.ok (.ok slot), dev') ∧ dev'.sectors = putSlot t slot e ∧ dev'.Once g.totalSectors) := by
  obtain ⟨hvalid, hlba, -⟩ := hprepared.slot_bounds hg
  have hbind : ∀ r dev', (putDirectoryEntry g slot e).exec dev = (.ok r, dev') →
      (publishEntry (some g) g slot e tail fresh).exec dev = ((match r with
        | .ok () => pure (.ok slot)
        | .error false => pure (.error (.ioError, false))
        | .error true =>
          if fresh = 0 then pure (.error (.ioError, true))
          else unlinkGrown (some g) tail fresh >>= fun _ => pure (.error (.ioError, true)) : Io Created)).exec dev' := by
    intro r dev' hexec
    unfold publishEntry
    rw [Exec.exec_bind, Exec.exec_attempt, hexec]
    cases r with
    | ok u => rfl
    | error b => cases b <;> rfl
  rcases putDirectoryEntry_once (e := e) honce hvalid hlba with
    ⟨hread, dev', hexec, hsec, hready⟩ | ⟨hread, hwrite, dev', hexec, hsec, hready⟩ |
    ⟨hread, hwrite, dev', hexec, hsec, honce'⟩
  · exact Or.inl ⟨hread, dev', hbind _ _ hexec, hsec.trans hdev, hready⟩
  · refine Or.inr (Or.inl ⟨hread, hwrite, ?_⟩)
    rw [hbind _ _ hexec]
    dsimp only
    unfold withdrawn
    by_cases hzero : fresh = 0
    · rw [if_pos hzero, if_pos hzero]
      exact ⟨dev', rfl, hsec.trans hdev, hready⟩
    · obtain ⟨hfresh, -, htail, -, ht⟩ := (hprepared.fresh_ne).mp hzero
      rw [if_neg hzero, if_neg hzero, Exec.exec_bind]
      obtain ⟨hr, hsec', hsame⟩ := does_unlinkGrown hg hm hagree hfresh htail dev' hready
        ((hsec.trans hdev).trans ht)
      cases hrun : (unlinkGrown (some g) tail fresh).exec dev' with
      | mk r dev'' =>
        rw [hrun] at hr hsec' hsame
        obtain rfl : r = .ok () := hr
        exact ⟨dev'', rfl, hsec', hsame.ready hready⟩
  · refine Or.inr (Or.inr ⟨hread, hwrite, dev', hbind _ _ hexec, ?_, honce'⟩)
    rw [hsec, hdev]

omit hg in
theorem calm_refl (hd : WellFormed g d) : Calm g d d := fun c hc => by
  obtain ⟨l, hl⟩ := hd.directories c hc
  exact hl.alike

omit hg in
theorem KeepsInUse.calm (hd : WellFormed g d) (h : KeepsInUse g d t) : Calm g d t := fun c hc => by
  obtain ⟨l, hl⟩ := hd.directories c hc
  exact h.alike hl

theorem keepsInUse_fill (hfresh : Free g d fresh) (i : Nat) (hi : i ≤ g.sectorsPerCluster) (s : Sector) :
    KeepsInUse g d (fillSectors g fresh s i d) := by
  have hvalid : ∀ x ∈ [fresh], validCluster g x = true := fun x hx => List.mem_singleton.mp hx ▸ hfresh.1
  refine (onlyData_fill List.mem_cons_self hi s).keepsInUse hg hvalid fun x hx => ?_
  rw [List.mem_singleton.mp hx]
  exact hfresh.unlinked

omit hg in
theorem Prepared.apart (hd : WellFormed g d) (hc : Directory g d c) (hchain : Chain g d c chain)
    (h : Prepared g d c chain tail slot fresh t chain') {c' : Nat} (hc' : Directory g d c') (hne : c' ≠ c)
    {l : List Nat} (hl : Chain g d c' l) : List.Disjoint l chain' := by
  intro x hx hx'
  have hapart := hd.apart hc' hc hne hl hchain
  rcases h.change with ⟨-, rfl, -⟩ | ⟨hfresh, rfl, -⟩
  · exact hapart hx hx'
  · rcases List.mem_append.mp hx' with hx' | hx'
    · exact hapart hx hx'
    · rw [List.mem_singleton.mp hx'] at hx
      exact hl.linked_ne fresh hx hfresh.unlinked

theorem Prepared.calm (hd : WellFormed g d) (hc : Directory g d c) (hchain : Chain g d c chain)
    (h : Prepared g d c chain tail slot fresh t chain') : Calm g d t := by
  intro c' hc'
  by_cases hsame : c' = c
  · subst hsame
    exact alike_of_slots hchain h.linked h.same
  · obtain ⟨l, hl⟩ := hd.directories c' hc'
    exact (h.untouched hg).alike hg h.linked.valid hl (h.apart hd hc hchain hc' hsame hl)

theorem Prepared.withdrawn_calm (hd : WellFormed g d) (hc : Directory g d c) (hchain : Chain g d c chain)
    (h : Prepared g d c chain tail slot fresh t chain') : Calm g d (withdrawn g tail fresh d t) := by
  unfold withdrawn
  split_ifs with hzero
  · exact h.calm hg hd hc hchain
  · obtain ⟨hfresh, -, htail, -, -⟩ := (h.fresh_ne).mp hzero
    have hfill := keepsInUse_fill hg hfresh g.sectorsPerCluster (le_refl _) Sector.zero
    refine (hfill.trans (keepsInUse_endMark hg ?_)).calm hd
    rw [(hfill tail (by rw [htail]; exact Option.some_ne_none _)).1]
    exact htail

end Withdraw

def pendingEntry (g : BpbGeometry) (c : Nat) (name : ShortName) : Io (DirectorySlot × Nat × Nat) := do
  match ← findInDirectory g c name with
  | .found _ _ => throw .alreadyExists
  | .notFound free tail => do
    let (slot, fresh) ← prepareSlot (some g) g free tail
    pure (slot, tail, fresh)

theorem createDirectoryEntry_pending {g : BpbGeometry} (hm : g.mirroringEnabled = true) {text : CString}
    {name : ShortName} (henc : encodeComponent text = some name) (c : Nat) (entry : Entry) :
    createDirectoryEntry (some g) c text entry = (pendingEntry g c name).attempt >>= fun r =>
      match r with
      | .error status => pure (.error (status, true))
      | .ok (slot, tail, fresh) => publishEntry (some g) g slot (setName entry name) tail fresh := by
  refine Exec.ext fun dev => ?_
  rw [createDirectoryEntry_eq hm henc]
  unfold pendingEntry
  rw [Exec.exec_bind, Exec.exec_bind, Exec.exec_attempt, Exec.exec_attempt, Exec.exec_bind]
  cases (findInDirectory g c name).exec dev with
  | mk r dev' =>
    cases r with
    | error e => rfl
    | ok search =>
      cases search with
      | found slot e => rfl
      | notFound free tail =>
        dsimp only
        rw [createAbsent_eq, Exec.exec_bind, Exec.exec_attempt, Exec.exec_bind]
        cases (prepareSlot (some g) g free tail).exec dev' with
        | mk r dev'' =>
          cases r with
          | error e => rfl
          | ok pair => rfl

section Pending
variable {g : BpbGeometry} {n : Nat} (hg : g.Sound n) {d : Disk} {c : Nat} {chain : List Nat} {name : ShortName}
  (hm : g.mirroringEnabled = true) (hagree : ∀ x, validCluster g x = true → Agree g d x)
  (hchain : Chain g d c chain) (hmiss : lookup g d c name = none)
include hg

theorem Undone.keepsInUse {α : Type} {r : Except Status α} {t : Disk} (h : Undone g d r t) : KeepsInUse g d t := by
  obtain ⟨-, rfl | ⟨fresh, i, hfresh, hi, rfl⟩⟩ := h
  · exact .refl g _
  · exact keepsInUse_fill hg hfresh i hi Sector.zero

include hm hagree hchain hmiss

theorem oneFault_pendingEntry
    (hspace : ∀ free tail, value (findInDirectory g c name) d = .ok (.notFound free tail) →
      growthNeeded g d free tail → freeClusters g d ≠ []) :
    ∃ slot tail fresh t chain', Prepared g d c chain tail slot fresh t chain' ∧
      OneFault g.totalSectors (pendingEntry g c name) d (.ok (slot, tail, fresh)) t (Undone g d) := by
  obtain ⟨free, tail, hfind, hvacancy⟩ := value_missing hg hchain hmiss
  obtain ⟨slot, fresh, t, chain', hprepared, hprepare⟩ :=
    oneFault_prepareSlot hg hm hagree hchain hvacancy (hspace free tail hfind)
  refine ⟨slot, tail, fresh, t, chain', hprepared, ?_⟩
  unfold pendingEntry
  refine (oneFault_value (reads_findInDirectory c name) hfind).bind_refused ?_ ⟨⟨_, rfl⟩, Or.inl rfl⟩
  refine hprepare.bind (.pure _) (fun e t h => ⟨⟨e, rfl⟩, h.2⟩) ?_
  rintro b t' ⟨⟨e, he⟩, -⟩
  cases he

omit hchain hmiss in
theorem pendingEntry_full {free : FreeSearch} {tail : Nat}
    (hfind : value (findInDirectory g c name) d = .ok (.notFound free tail)) (hgrow : growthNeeded g d free tail)
    (hfull : freeClusters g d = []) {dev : Device} (hdev : dev.sectors = d) :
    wp (pendingEntry g c name) (fun _ _ => False) (fun _ dev' => dev'.sectors = d) dev := by
  unfold pendingEntry
  refine wp_bind ((reads_findInDirectory c name).wp dev) ?_ (fun _ _ h => h.1.trans hdev)
  rintro search dev' ⟨hvalue, hsec, -⟩
  rw [hdev, hfind] at hvalue
  obtain rfl := Except.ok.inj hvalue
  exact wp_bind (prepareSlot_full hg hm hagree hgrow hfull dev' (hsec.trans hdev)) (fun _ _ h => h.elim)
    (fun _ _ h => h)

/-- `create_directory_entry` either leaves everything that can be looked up alone, or has put its entry into
the slot that it prepared. -/
theorem createDirectoryEntry_once (hd : WellFormed g d) (hc : Directory g d c) {text : CString}
    (henc : encodeComponent text = some name) (entry : Entry) {dev : Device} (honce : dev.Once g.totalSectors)
    (hdev : dev.sectors = d) :
    ∃ r dev', (createDirectoryEntry (some g) c text entry).exec dev = (.ok r, dev') ∧
      ((∃ e, r = .error e) ∧ Calm g d dev'.sectors ∨
        ∃ slot tail fresh t chain', r = .ok slot ∧ Prepared g d c chain tail slot fresh t chain' ∧
          dev'.sectors = putSlot t slot (setName entry name) ∧ dev'.Once g.totalSectors) := by
  have hstop : ∀ e dev', (pendingEntry g c name).exec dev = (.error e, dev') →
      (createDirectoryEntry (some g) c text entry).exec dev = (.ok (.error (e, true)), dev') := by
    intro e dev' hexec
    rw [createDirectoryEntry_pending hm henc, Exec.exec_bind, Exec.exec_attempt, hexec]
    rfl
  have hgo : ∀ slot tail fresh dev', (pendingEntry g c name).exec dev = (.ok (slot, tail, fresh), dev') →
      (createDirectoryEntry (some g) c text entry).exec dev =
        (publishEntry (some g) g slot (setName entry name) tail fresh).exec dev' := by
    intro slot tail fresh dev' hexec
    rw [createDirectoryEntry_pending hm henc, Exec.exec_bind, Exec.exec_attempt, hexec]
  by_cases hspace : ∀ free tail, value (findInDirectory g c name) d = .ok (.notFound free tail) →
      growthNeeded g d free tail → freeClusters g d ≠ []
  · obtain ⟨slot, tail, fresh, t, chain', hprepared, hpending⟩ :=
      oneFault_pendingEntry hg hm hagree hchain hmiss hspace
    obtain ⟨-, hout⟩ := hpending dev honce hdev
    cases hexec : (pendingEntry g c name).exec dev with
    | mk r dev' =>
      rw [hexec] at hout
      rcases hout with ⟨rfl, hsec, honce'⟩ | ⟨hundone, -, -⟩
      · rw [hgo _ _ _ _ hexec]
        rcases publishEntry_once hg hm hagree hprepared (setName entry name) honce' hsec with
          ⟨-, dev'', hexec', hsec', -⟩ | ⟨-, -, dev'', hexec', hsec', -⟩ | ⟨-, -, dev'', hexec', hsec', honce''⟩
        · exact ⟨_, dev'', hexec', Or.inl ⟨⟨_, rfl⟩, hsec' ▸ hprepared.calm hg hd hc hchain⟩⟩
        · exact ⟨_, dev'', hexec', Or.inl ⟨⟨_, rfl⟩, hsec' ▸ hprepared.withdrawn_calm hg hd hc hchain⟩⟩
        · exact ⟨_, dev'', hexec', Or.inr ⟨slot, tail, fresh, t, chain', rfl, hprepared, hsec', honce''⟩⟩
      · have hcalm := (hundone.keepsInUse hg).calm hd
        obtain ⟨⟨e, rfl⟩, -⟩ := hundone
        exact ⟨_, dev', hstop _ _ hexec, Or.inl ⟨⟨_, rfl⟩, hcalm⟩⟩
  · push Not at hspace
    obtain ⟨free, tail, hfind, hgrow, hfull⟩ := hspace
    obtain ⟨hright, hwrong⟩ := wp_iff.mp (pendingEntry_full hg hm hagree hfind hgrow hfull hdev)
    cases hexec : (pendingEntry g c name).exec dev with
    | mk r dev' =>
      rw [hexec] at hright hwrong
      cases r with
      | ok x => exact (hright x rfl).elim
      | error e =>
        refine ⟨_, dev', hstop _ _ hexec, Or.inl ⟨⟨_, rfl⟩, ?_⟩⟩
        rw [show dev'.sectors = d from hwrong e rfl]
        exact calm_refl hd

end Pending

end Linux95.Fat32
