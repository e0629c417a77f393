import Linux95.Storage.SingleFault
import Linux95.Fat32.Allocation

/-! One refused request during an update of the FAT: `write_fat_entry` and `allocate_chain` put back what
they have changed. -/

namespace Linux95.Fat32
open Base Storage Write

def Patch.between (j k c v : Nat) : Patch := fun k' c' =>
  if j ≤ k' ∧ k' < k ∧ c' = c then some v else none

def RolledBack {α : Type} (d : Disk) (r : Except Status α) (d' : Disk) : Prop :=
  (∃ e, r = .error e) ∧ d' = d

section WriteEntry
variable {g : BpbGeometry} {n : Nat} (hg : g.Sound n) {d : Disk} {c v : Nat}
include hg

theorem oneFault_writeRaw {k raw : Nat} (hc : validCluster g c = true) (hk : k < g.fatCount)
    (hraw : raw < 2 ^ 32) (htop : raw / 2 ^ 28 = fatEntry g d k c / 2 ^ 28) :
    OneFault g.totalSectors (writeRaw g c k raw) d (.ok ()) (patchFat g (.single k c (fat28 raw)) d)
      (Refused d) := by
  have hlt : g.fatLba k c < g.totalSectors := (fatLba_bounds hg hc hk).2.2.trans hg.firstDataLt
  unfold writeRaw
  rw [entryLocation_eq hg hc hk, ← put32_patchFat hg hc hk hraw htop]
  exact (oneFault_read hlt d).bind_refused (oneFault_write .fat hlt _ d) ⟨rfl, rfl⟩

omit hg in
theorem between_zero (k c v : Nat) : Patch.between 0 k c v = Patch.upTo k c v := by
  funext k' c'
  unfold Patch.between Patch.upTo
  simp only [Nat.zero_le, true_and]

theorem patchFat_restore {j k : Nat} (hj : j < k) :
    patchFat g (.single j c (fat28 (fatEntry g d j c))) (patchFat g (.between j k c v) d) =
      patchFat g (.between (j + 1) k c v) d := by
  -- the restored copy leaves the patch
  have hsame : patchFat g (.single j c (fat28 (fatEntry g d j c))) d = d := by
    apply patchFat_same hg
    intro k' c' w _ hw
    obtain ⟨rfl, rfl, rfl⟩ := single_eq_some hw
    rfl
  have hcommute : patchFat g (.between (j + 1) k c v)
      (patchFat g (.single j c (fat28 (fatEntry g d j c))) d) =
        patchFat g (.single j c (fat28 (fatEntry g d j c))) (patchFat g (.between j k c v) d) := by
    rw [patchFat_patchFat, patchFat_patchFat]
    congr 1
    funext k' c'
    unfold Patch.between Patch.single
    by_cases hc : c' = c
    · by_cases hkj : k' = j
      · rw [if_neg (by omega), if_pos ⟨hkj, hc⟩]
        rfl
      · have hrange : (j + 1 ≤ k' ∧ k' < k ∧ c' = c) ↔ (j ≤ k' ∧ k' < k ∧ c' = c) := by omega
        have hsingle : ¬ (k' = j ∧ c' = c) := fun h => hkj h.1
        rw [if_neg hsingle, Option.none_or, Option.or_none, if_congr hrange rfl rfl]
    · rw [if_neg fun h => hc h.2.2, if_neg fun h => hc h.2, if_neg fun h => hc h.2.2]
  rw [← hcommute, hsame]

theorem does_restoreCopies (hc : validCluster g c = true) : ∀ j old, j + old.length ≤ g.fatCount →
    (∀ i raw, old[i]? = some raw → raw = fatEntry g d (j + i) c) →
    Does g.totalSectors (restoreCopies g c j old) (patchFat g (.between j (j + old.length) c v) d) (.ok ()) d
  | j, [], _, _ => by
    have hnone : Patch.between j (j + ([] : List Nat).length) c v = fun _ _ => none := by
      funext k' c'
      exact if_neg fun h => absurd h.2.1 (Nat.not_lt.mpr h.1)
    rw [hnone, patchFat_nothing]
    exact .pure ()
  | j, raw :: old, hlen, hold => by
    rw [List.length_cons] at hlen ⊢
    obtain rfl : raw = fatEntry g d j c := hold 0 raw rfl
    have htop : fatEntry g d j c / 2 ^ 28 =
        fatEntry g (patchFat g (.between j (j + (old.length + 1)) c v) d) j c / 2 ^ 28 :=
      (fatEntry_patchFat_top hg _ _ hc (by omega)).symm
    have hwrite := does_writeRaw hg hc (by omega) (fatEntry_lt g d j c) htop
    rw [patchFat_restore hg (by omega)] at hwrite
    have hrest := does_restoreCopies hc (j + 1) old (by omega) fun i raw' hi => by
      rw [hold (i + 1) raw' (by rwa [List.getElem?_cons_succ]), Nat.add_right_comm, Nat.add_assoc]
    rw [show j + 1 + old.length = j + (old.length + 1) by omega] at hrest
    unfold restoreCopies
    exact .bind hwrite.attempt hrest

theorem oneFault_writeCopies (hc : validCluster g c = true) (hv : v < 2 ^ 28) :
    ∀ done old, done.length + old.length = g.fatCount →
      (∀ i raw, (done ++ old)[i]? = some raw → raw = fatEntry g d i c) →
      OneFault g.totalSectors (writeCopies g c v done old) (patchFat g (.upTo done.length c v) d) (.ok ())
        (patchFat g (.entry c v) d) (Refused d)
  | done, [], hlen, _ => by
    have hall : done.length = g.fatCount := by simpa using hlen
    rw [hall, patchFat_upTo_all hg]
    exact .pure ()
  | done, raw :: old, hlen, hraws => by
    rw [List.length_cons] at hlen
    have hk : done.length < g.fatCount := by omega
    have hraw : raw = fatEntry g d done.length c := hraws done.length raw (by simp)
    obtain ⟨hnew, htop, hlow⟩ := merged_entry hg (.upTo done.length c v) hc hk hv hraw
    have hwrite := oneFault_writeRaw hg hc hk hnew htop
    rw [hlow, patchFat_patchFat, upTo_succ] at hwrite
    have hrest := oneFault_writeCopies hc hv (done ++ [raw]) old (by simp; omega)
      (by rwa [List.append_assoc])
    rw [List.length_append, List.length_singleton] at hrest
    -- the copies written before the refused one get their old entries back
    have hrestore := does_restoreCopies hg (d := d) (v := v) hc 0 done (by omega) fun i raw' hi => by
      have hlt' : i < done.length := (List.getElem?_eq_some_iff.mp hi).1
      rw [Nat.zero_add]
      exact hraws i raw' (by rw [List.getElem?_append_left hlt']; exact hi)
    rw [Nat.zero_add, between_zero] at hrestore
    unfold writeCopies
    refine hwrite.bind_attempt hrest ?_
    rintro y t ⟨rfl, rfl⟩
    exact ⟨_, _, .bind hrestore (.throw _), rfl, rfl⟩

theorem oneFault_writeFatEntry (hm : g.mirroringEnabled = true) (hc : validCluster g c = true)
    (hv : entryValue g v) (hagree : Agree g d c) :
    OneFault g.totalSectors (writeFatEntry (some g) c v) d (.ok ()) (patchFat g (.entry c v) d)
      (Refused d) := by
  have hread := value_readCopies hg hc d g.fatCount (le_refl _) (fun k hk => by omega)
  rw [Nat.sub_self, if_pos hagree] at hread
  have hwrite := oneFault_writeCopies hg (d := d) hc hv.2 [] (copies g d c) (by simp [copies]) (by
    intro i raw hi
    obtain ⟨hlt, hget⟩ := List.getElem?_eq_some_iff.mp hi
    simpa [copies] using hget.symm)
  rw [patchFat_upTo_zero] at hwrite
  rw [writeFatEntry_eq hm hc hv]
  exact (oneFault_value (reads_readCopies _ _ _) hread).bind_refused hwrite ⟨rfl, rfl⟩

theorem oneFault_writeFatEntry_disagree (hm : g.mirroringEnabled = true) (hc : validCluster g c = true)
    (hv : entryValue g v) (hagree : ¬ Agree g d c) :
    OneFault g.totalSectors (writeFatEntry (some g) c v) d (.error .corrupt) d (Refused d) := by
  have hread := value_readCopies hg hc d g.fatCount (le_refl _) (fun k hk => by omega)
  rw [Nat.sub_self, if_neg hagree] at hread
  rw [writeFatEntry_eq hm hc hv]
  refine (oneFault_value (reads_readCopies _ _ _) hread).bind_error _ ?_ fun b t h => (nomatch h.1)
  rintro e t ⟨he, ht⟩
  exact ⟨by rw [Except.error.inj he], ht⟩

end WriteEntry

/-- Every copy's entry of `c` becomes `v` below its own upper four bits, and no other byte changes. -/
structure EntryWritten (g : BpbGeometry) (d : Disk) (c v : Nat) (d' : Disk) : Prop where
  value : ∀ k, k < g.fatCount → fat28 (fatEntry g d' k c) = v
  reserved : ∀ k, k < g.fatCount → fatEntry g d' k c / 2 ^ 28 = fatEntry g d k c / 2 ^ 28
  elsewhere : ∀ lba (j : Fin 512),
    (∀ k, k < g.fatCount → ¬ (lba = g.fatLba k c ∧ c % 128 * 4 ≤ j.val ∧ j.val < c % 128 * 4 + 4)) →
      d' lba j = d lba j

theorem entryWritten_patchFat {g : BpbGeometry} {n : Nat} (hg : g.Sound n) (d : Disk) {c v : Nat}
    (hc : validCluster g c = true) (hv : v < 2 ^ 28) : EntryWritten g d c v (patchFat g (.entry c v) d) where
  value := fun k hk => fat28_patchFat hg hc hk hv (if_pos rfl)
  reserved := fun k hk => fatEntry_patchFat_top hg _ d hc hk
  elsewhere := by
    intro lba j hother
    unfold patchFat
    by_cases hfat : g.fatBeginLba ≤ lba ∧ lba < g.firstDataLba
    · -- The byte belongs to the entry of another cluster.
      obtain ⟨hlba, hoffset⟩ := fatLba_copyOf hfat.1 j.isLt
      have hne : g.clusterOf lba j.val ≠ c := by
        intro heq
        rw [heq] at hlba hoffset
        exact hother _ (copyOf_lt hg hfat) ⟨hlba.symm, by omega, by omega⟩
      have hnone : Patch.entry c v (g.copyOf lba) (g.clusterOf lba j.val) = none := if_neg hne
      rw [if_pos hfat, hnone]
    · rw [if_neg hfat]

/-- `write_fat_entry` is all or nothing over the copies of the FAT. -/
theorem writeFatEntry_all_or_nothing (boot : Sector) (diskSectors : Nat) (g : BpbGeometry)
    (hparse : parseBpb boot diskSectors = some g) (hm : g.mirroringEnabled = true) (dev : Device)
    (honce : dev.Once g.totalSectors) (cluster value : Nat) :
    ((writeFatEntry (some g) cluster value).exec dev).1 = .ok () ∧
        EntryWritten g dev.sectors cluster value ((writeFatEntry (some g) cluster value).exec dev).2.sectors ∨
      (∃ status, ((writeFatEntry (some g) cluster value).exec dev).1 = .error status) ∧
        ((writeFatEntry (some g) cluster value).exec dev).2.sectors = dev.sectors := by
  have hg := parseBpb_sound hparse
  by_cases haccepted : g.mirroringEnabled = true ∧ validCluster g cluster = true ∧ entryValue g value
  · obtain ⟨-, hc, hv⟩ := haccepted
    by_cases hagree : Agree g dev.sectors cluster
    · obtain ⟨-, ⟨hresult, hsectors, -⟩ | ⟨hrefused, -⟩⟩ :=
        oneFault_writeFatEntry hg hm hc hv hagree dev honce rfl
      · rw [hsectors]
        exact Or.inl ⟨hresult, entryWritten_patchFat hg dev.sectors hc hv.2⟩
      · exact Or.inr ⟨⟨_, hrefused.1⟩, hrefused.2⟩
    · obtain ⟨-, ⟨hresult, hsectors, -⟩ | ⟨hrefused, -⟩⟩ :=
        oneFault_writeFatEntry_disagree hg hm hc hv hagree dev honce rfl
      · exact Or.inr ⟨⟨_, hresult⟩, hsectors⟩
      · exact Or.inr ⟨⟨_, hrefused.1⟩, hrefused.2⟩
  · obtain ⟨status, -, hthrow⟩ := writeFatEntry_throw haccepted
    rw [hthrow]
    exact Or.inr ⟨⟨status, rfl⟩, rfl⟩

/-- The drive refuses the write of the second copy. -/
theorem writeFatEntry_all_or_nothing_second_copy :
    ((writeFatEntry (some smallGeometry) 3 0).exec
        { chainDevice with faults := fun n => if n = 5 then .refused else .none }).1 = .error .ioError ∧
      ((writeFatEntry (some smallGeometry) 3 0).exec
        { chainDevice with faults := fun n => if n = 5 then .refused else .none }).2.sectors = chainDisk := by
  have hrefused : ((writeFatEntry (some smallGeometry) 3 0).exec
      { chainDevice with faults := fun n => if n = 5 then .refused else .none }).1 = .error .ioError := by
    decide +kernel
  have honce : Device.Once { chainDevice with faults := fun n => if n = 5 then .refused else .none }
      smallGeometry.totalSectors := by
    have honly : ∀ n, (if n = 5 then Fault.refused else Fault.none) ≠ .none → n = 5 := by
      intro n hn
      by_contra hne
      exact hn (if_neg hne)
    refine ⟨rfl, le_refl 66586, fun n => ?_, fun m n hm hn => (honly m hm).trans (honly n hn).symm⟩
    dsimp only
    split_ifs <;> decide
  refine ⟨hrefused, ?_⟩
  rcases writeFatEntry_all_or_nothing smallBoot 66586 smallGeometry parseBpb_smallBoot rfl _ honce 3 0 with
    ⟨hok, -⟩ | ⟨-, hsectors⟩
  · rw [hrefused] at hok
    cases hok
  · exact hsectors

section Allocate
variable {g : BpbGeometry} {size : Nat} (hg : g.Sound size) {n : Nat} {d : Disk} {acc : List Nat}
  {first previous : Nat}
include hg

theorem Building.does_free (hm : g.mirroringEnabled = true)
    (hagree : ∀ c, validCluster g c = true → Agree g d c) (h : Building g d n acc first previous)
    (hne : first ≠ 0) :
    Does g.totalSectors (freeChain (some g) first) (patchFat g (.linked acc) d) (.ok ()) d := by
  have hchain := h.chain hg hne (.linked acc) fun _ _ => rfl
  rcases does_freeChain hg hm (patchFat g (.linked acc) d) first with
    ⟨hzero, -⟩ | ⟨l, -, hl, hdoes⟩ | ⟨-, hnone, -⟩
  · exact absurd hzero hne
  · rw [hl.1.unique hchain, h.cleared hg hagree] at hdoes
    exact hdoes
  · exact absurd ⟨acc, hchain, fun x hx => h.agree hg hx, hchain.length_le⟩ hnone

theorem Building.does_discard (hm : g.mirroringEnabled = true)
    (hagree : ∀ c, validCluster g c = true → Agree g d c) (h : Building g d n acc first previous) :
    Does g.totalSectors (discardChain (some g) first) (patchFat g (.linked acc) d) (.ok (.ok ())) d := by
  unfold discardChain
  by_cases hzero : first = 0
  · have hnil : acc = [] := by
      rcases h.first_cases with ⟨-, -, hnil⟩ | ⟨-, -, hne, -⟩
      · exact hnil
      · exact absurd hzero hne
    have hsame : patchFat g (.linked acc) d = d := by
      rw [hnil]
      exact patchFat_nothing g d
    rw [if_neg (not_not.mpr hzero), hsame]
    exact .pure _
  · rw [if_pos hzero]
    exact (h.does_free hg hm hagree hzero).attempt

theorem oneFault_claim (hm : g.mirroringEnabled = true)
    (hagree : ∀ c, validCluster g c = true → Agree g d c) {candidate : Nat} {r : Except Status Nat}
    {d' : Disk} (next : Nat → Io Nat) (h : Building g d n acc first previous) (hc : Free g d candidate)
    (hnot : candidate ∉ acc)
    (hextended : patchFat g (.linked (acc ++ [candidate])) d =
      if previous ≠ 0 then
        patchFat g (.entry previous candidate)
          (patchFat g (.entry candidate endMark) (patchFat g (.linked acc) d))
      else patchFat g (.entry candidate endMark) (patchFat g (.linked acc) d))
    (hnext : OneFault g.totalSectors (next (if previous ≠ 0 then first else candidate))
      (patchFat g (.linked (acc ++ [candidate])) d) r d' (RolledBack d)) :
    OneFault g.totalSectors (do
        match ← (writeFatEntry (some g) candidate 0x0FFFFFFF).attempt with
        | .error status => do
          let cleanup ← discardChain (some g) first
          throw (statusAfter cleanup status)
        | .ok () =>
          if previous ≠ 0 then
            match ← (writeFatEntry (some g) previous candidate).attempt with
            | .error status => do
              let discard ← (writeFatEntry (some g) candidate 0).attempt
              let cleanup ← (freeChain (some g) first).attempt
              throw (statusAfter discard (statusAfter cleanup status))
            | .ok () => next first
          else next candidate) (patchFat g (.linked acc) d) r d' (RolledBack d) := by
  have hcopies : Agree g (patchFat g (.linked acc) d) candidate := by
    refine (agree_patchFat hg hc.1 fun k _ => ?_).mpr (hagree candidate hc.1)
    exact chainValue_of_notMem hnot
  have hfree : ∀ k, k < g.fatCount → fat28 (fatEntry g (patchFat g (.linked acc) d) k candidate) = 0 := by
    intro k hk
    have hzero : fat28 (fatEntry g d 0 candidate) = 0 := of_decide_eq_true hc.2
    have hsame : Patch.linked acc 0 candidate = none := chainValue_of_notMem hnot
    rw [hcopies k hk, fatEntry_patchFat hg _ _ hc.1 hg.fatCountPos, hsame]
    exact hzero
  -- a refused mark leaves the chain so far, a refused link leaves it with one claimed cluster
  refine (oneFault_writeFatEntry hg hm hc.1 entryValue_endMark hcopies).bind_attempt ?_ ?_
  · dsimp only
    by_cases hprevious : previous ≠ 0
    · rw [if_pos hprevious] at hextended hnext ⊢
      have hmem : previous ∈ acc := by
        rcases h.first_cases with ⟨-, hzero, -⟩ | ⟨-, hmem, -⟩
        · exact absurd hzero hprevious
        · exact hmem
      have hfirst : first ≠ 0 := by
        rcases h.first_cases with ⟨-, hzero, -⟩ | ⟨-, -, hfirst, -⟩
        · exact absurd hzero hprevious
        · exact hfirst
      have hne : previous ≠ candidate := by
        rintro rfl
        exact hnot hmem
      have hcopies' : Agree g (patchFat g (.entry candidate endMark) (patchFat g (.linked acc) d)) previous := by
        refine (agree_patchFat hg (h.valid previous hmem) fun k _ => ?_).mpr (h.agree hg hmem)
        exact if_neg hne
      have hclaimed : Agree g (patchFat g (.entry candidate endMark) (patchFat g (.linked acc) d)) candidate := by
        intro k hk
        have hvalue : ∀ k', Patch.entry candidate endMark k' candidate = some endMark := fun _ => if_pos rfl
        rw [fat28_patchFat hg hc.1 hk (by decide) (hvalue k),
          fat28_patchFat hg hc.1 hg.fatCountPos (by decide) (hvalue 0)]
      -- clearing the claimed entry gives back the table before the claim
      have hback : patchFat g (.entry candidate 0) (patchFat g (.entry candidate endMark)
          (patchFat g (.linked acc) d)) = patchFat g (.linked acc) d := by
        have hpatch : (fun k c => (Patch.entry candidate 0 k c).or (Patch.entry candidate endMark k c)) =
            Patch.entry candidate 0 := by
          funext k c
          unfold Patch.entry
          split_ifs <;> rfl
        rw [patchFat_patchFat, hpatch]
        apply patchFat_same hg
        intro k c w hk hw
        obtain ⟨rfl, rfl⟩ := entry_eq_some hw
        exact (hfree k hk).symm
      have hdiscard := does_writeFatEntry hg hm hc.1 entryValue_zero hclaimed
      rw [hback] at hdiscard
      refine (oneFault_writeFatEntry hg hm (h.valid previous hmem) (entryValue_cluster hg hc.1)
        hcopies').bind_attempt ?_ ?_
      · rw [← hextended]
        exact hnext
      · rintro y t ⟨rfl, rfl⟩
        exact ⟨_, _, .bind hdiscard.attempt (.bind (h.does_free hg hm hagree hfirst).attempt (.throw _)),
          ⟨_, rfl⟩, rfl⟩
    · rw [if_neg hprevious] at hextended hnext ⊢
      rw [← hextended]
      exact hnext
  · rintro y t ⟨rfl, rfl⟩
    exact ⟨_, _, .bind (h.does_discard hg hm hagree) (.throw _), ⟨_, rfl⟩, rfl⟩

theorem oneFault_allocateLoop (hm : g.mirroringEnabled = true)
    (hagree : ∀ c, validCluster g c = true → Agree g d c) : ∀ n acc need first previous,
    Building g d n acc first previous → need ≤ (freeAmong g d n).length →
    OneFault g.totalSectors (allocateLoop (some g) g n need first previous) (patchFat g (.linked acc) d)
      (.ok ((acc ++ (freeAmong g d n).take need).headD 0))
      (patchFat g (.linked (acc ++ (freeAmong g d n).take need)) d) (RolledBack d) := by
  intro n
  induction n with
  | zero =>
    intro acc need first previous h hlen
    have hnone : freeAmong g d 0 = [] := rfl
    rw [hnone, List.length_nil] at hlen
    unfold allocateLoop
    rw [if_pos (Nat.le_zero.mp hlen), hnone, List.take_nil, List.append_nil, ← h.first]
    exact .pure _
  | succ n ih =>
    intro acc need first previous h hlen
    have hfits := h.fits
    obtain ⟨hcandidate, hnot⟩ := h.next
    have hsucc := freeAmong_succ d hfits
    unfold allocateLoop
    by_cases hneed : need = 0
    · rw [if_pos hneed, hneed, List.take_zero, List.append_nil, ← h.first]
      exact .pure _
    rw [if_neg hneed]
    have hextend := fun hfree => h.extend hfree
    have hextended := h.extended
    dsimp only
    generalize g.clusterCount - (n + 1) + 2 = candidate at hcandidate hnot hsucc hextend hextended ⊢
    have hvalue := @value_unlinked g _ hg d acc hm candidate hcandidate hnot
    refine (oneFault_value (reads_readFatEntry candidate) hvalue).bind_attempt ?_ ?_
    · dsimp only
      by_cases hused : fat28 (fatEntry g d 0 candidate) ≠ 0
      · have hfree : isFree g d candidate = false := decide_eq_false hused
        rw [hfree, if_neg Bool.false_ne_true] at hsucc
        rw [if_pos hused, hsucc]
        rw [hsucc] at hlen
        exact ih acc need first previous h.skip hlen
      · have hfree : isFree g d candidate = true := decide_eq_true (not_not.mp hused)
        rw [hfree, if_pos rfl] at hsucc
        have hbuilding := hextend hfree
        have htake : acc ++ (freeAmong g d (n + 1)).take need =
            acc ++ [candidate] ++ (freeAmong g d n).take (need - 1) := by
          rw [hsucc, show need = need - 1 + 1 by omega, List.take_succ_cons, List.append_assoc]
          rfl
        rw [hsucc, List.length_cons] at hlen
        rw [if_neg hused, htake]
        exact oneFault_claim hg hm hagree
          (fun first => allocateLoop (some g) g n (need - 1) first candidate) h ⟨hcandidate, hfree⟩ hnot
          (hextended hbuilding.nodup) (ih _ (need - 1) _ candidate hbuilding (by omega))
    · rintro y t ⟨rfl, rfl⟩
      exact ⟨_, _, .bind (h.does_discard hg hm hagree) (.throw _), ⟨_, rfl⟩, rfl⟩

theorem oneFault_allocateChain (hm : g.mirroringEnabled = true)
    (hagree : ∀ c, validCluster g c = true → Agree g d c) {need : Nat}
    (hlen : need ≤ (freeClusters g d).length) :
    OneFault g.totalSectors (allocateChain (some g) need) d (.ok (((freeClusters g d).take need).headD 0))
      (patchFat g (.linked ((freeClusters g d).take need)) d) (RolledBack d) := by
  have hnothing : patchFat g (.linked []) d = d := patchFat_nothing g d
  have hcount : (freeClusters g d).length ≤ g.clusterCount := by
    unfold freeClusters
    exact (List.length_filter_le _ _).trans (List.length_range').le
  unfold allocateChain
  rw [geometryForWrite_bind, if_pos hm]
  by_cases hzero : need = 0
  · rw [if_pos hzero, hzero, List.take_zero, hnothing]
    exact .pure 0
  · rw [if_neg hzero, if_neg (by omega)]
    have hloop := oneFault_allocateLoop hg hm hagree g.clusterCount [] need 0 0
      ⟨le_refl _, rfl, rfl, List.nodup_nil, fun _ hx => (nomatch hx), fun _ hx => (nomatch hx)⟩
      (by rw [freeAmong_all]; exact hlen)
    rw [freeAmong_all, List.nil_append, hnothing] at hloop
    exact hloop

end Allocate

end Linux95.Fat32
