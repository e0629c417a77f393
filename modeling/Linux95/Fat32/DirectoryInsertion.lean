import Linux95.Fat32.DirectorySlots
import Linux95.Fat32.FatFaults

/-! `create_directory_entry` in two halves: the slot is prepared (the end marker moved or the directory
grown), then the entry is put into it. -/

namespace Linux95.Fat32
open Base Storage Write

/-- `create_directory_entry` up to its publication step: the slot, and the cluster the directory grew by
or 0. -/
def prepareSlot (vol : Option BpbGeometry) (g : BpbGeometry) (free : FreeSearch) (tail : Nat) :
    Io (DirectorySlot × Nat) := do
  let marker ← markerFor g free tail
  if free.freeSlot.lba = 0 ∨ (free.freeIsEnd ∧ marker.isNone) then do
    let fresh ← growDirectory vol g tail
    match directoryLba g fresh 0 with
    | none => throw .corrupt
    | some lba => pure (if free.freeSlot.lba = 0 then ⟨lba, 0⟩ else free.freeSlot, fresh)
  else do
    moveMarker g marker
    pure (free.freeSlot, 0)

theorem createAbsent_eq (vol : Option BpbGeometry) (g : BpbGeometry) (published : Entry)
    (free : FreeSearch) (tail : Nat) :
    createAbsent vol g published free tail = (prepareSlot vol g free tail).attempt >>= fun r =>
      match r with
      | .error status => pure (.error (status, true))
      | .ok (slot, fresh) => publishEntry vol g slot published tail fresh := by
  refine Exec.ext fun dev => ?_
  unfold createAbsent prepareSlot
  rw [Exec.exec_bind, Exec.exec_bind, Exec.exec_attempt, Exec.exec_attempt, Exec.exec_bind]
  cases (markerFor g free tail).exec dev with
  | mk r dev' =>
    cases r with
    | error e => rfl
    | ok marker =>
      dsimp only
      by_cases hgrow : free.freeSlot.lba = 0 ∨ (free.freeIsEnd = true ∧ marker.isNone = true)
      · rw [if_pos hgrow, if_pos hgrow, Exec.exec_bind, Exec.exec_attempt, Exec.exec_bind]
        cases (growDirectory vol g tail).exec dev' with
        | mk r dev'' =>
          cases r with
          | error e => rfl
          | ok fresh =>
            dsimp only
            cases directoryLba g fresh 0 with
            | none => rfl
            | some lba => rfl
      · rw [if_neg hgrow, if_neg hgrow, Exec.exec_bind, Exec.exec_attempt, Exec.exec_bind]
        cases (moveMarker g marker).exec dev' with
        | mk r dev'' =>
          cases r with
          | error e => rfl
          | ok u => rfl

def fillSectors (g : BpbGeometry) (c : Nat) (s : Sector) (n : Nat) (d : Disk) : Disk := fun lba =>
  if g.dataLba c 0 ≤ lba ∧ lba < g.dataLba c n then s else d lba

def Patch.grow (tail fresh : Nat) : Patch := fun _ c =>
  if c = tail then some fresh else if c = fresh then some endMark else none

def grown (g : BpbGeometry) (tail fresh : Nat) (d : Disk) : Disk :=
  patchFat g (.grow tail fresh) (fillSectors g fresh Sector.zero g.sectorsPerCluster d)

section Fill
variable {g : BpbGeometry} {c : Nat} {s : Sector} {d : Disk}

theorem fillSectors_zero : fillSectors g c s 0 d = d := by
  funext lba
  exact if_neg fun h => absurd h.2 (Nat.not_lt.mpr h.1)

theorem fillSectors_succ (k : Nat) :
    Function.update (fillSectors g c s k d) (g.dataLba c k) s = fillSectors g c s (k + 1) d := by
  funext lba
  unfold fillSectors
  by_cases hlba : lba = g.dataLba c k
  · rw [hlba, Function.update_self, if_pos]
    unfold BpbGeometry.dataLba
    omega
  · rw [Function.update_of_ne hlba]
    congr 1
    apply propext
    unfold BpbGeometry.dataLba at hlba ⊢
    omega

variable {n : Nat} (hg : g.Sound n)
include hg

theorem fillSectors_fat (hc : validCluster g c = true) {k lba : Nat} (h : lba < g.firstDataLba) :
    fillSectors g c s k d lba = d lba := by
  -- a cluster that is filled lies behind the FAT
  have hlo := (dataLba_bounds hg hc hg.spcPos).1
  exact if_neg fun hin => by omega

theorem patchFat_fillSectors (hc : validCluster g c = true) (p : Patch) (k : Nat) :
    patchFat g p (fillSectors g c s k d) = fillSectors g c s k (patchFat g p d) := by
  funext lba j
  by_cases hfat : lba < g.firstDataLba
  · rw [fillSectors_fat hg hc hfat]
    unfold patchFat
    rw [fillSectors_fat hg hc hfat]
  · rw [patchFat_outside (Or.inr (Nat.le_of_not_lt hfat))]
    unfold fillSectors
    split_ifs
    · rfl
    · rw [patchFat_outside (Or.inr (Nat.le_of_not_lt hfat))]

theorem oneFault_fillCluster (hc : validCluster g c = true) (s : Sector) : ∀ k, k ≤ g.sectorsPerCluster →
    OneFault g.totalSectors (fillCluster g c s k) (fillSectors g c s (g.sectorsPerCluster - k) d) (.ok ())
      (fillSectors g c s g.sectorsPerCluster d)
      (fun r d' => (∃ e, r = .error e) ∧ ∃ i, i ≤ g.sectorsPerCluster ∧ d' = fillSectors g c s i d)
  | 0, _ => by
    rw [Nat.sub_zero]
    exact .pure ()
  | k + 1, hk => by
    have hi : g.sectorsPerCluster - (k + 1) < g.sectorsPerCluster := by omega
    have hrest := oneFault_fillCluster hc s k (by omega)
    rw [show g.sectorsPerCluster - k = g.sectorsPerCluster - (k + 1) + 1 by omega] at hrest
    unfold fillCluster
    rw [directoryLba_eq hg hc hi]
    have hwrite := oneFault_write .data (dataLba_bounds hg hc hi).2.1 s
      (fillSectors g c s (g.sectorsPerCluster - (k + 1)) d)
    rw [fillSectors_succ] at hwrite
    exact hwrite.bind_refused hrest ⟨⟨_, rfl⟩, _, hi.le, rfl⟩

end Fill

theorem isEoc_of_last {g : BpbGeometry} {raw : Nat} (h : linkOf g raw = some none) : isEoc raw = true := by
  unfold linkOf at h
  cases hk : classifyFatEntry (fat28 raw) with
  | endOfChain =>
    have hlt : fat28 raw < 2 ^ 28 := Nat.mod_lt _ (by decide)
    unfold classifyFatEntry at hk
    dsimp only at hk
    rw [fat28_fat28] at hk
    split_ifs at hk with h1 h2 h3 h4 h5
    unfold isEoc
    rw [Bool.and_eq_true, decide_eq_true_eq, decide_eq_true_eq]
    omega
  | next =>
    rw [hk, kindLink] at h
    split_ifs at h
    cases h
  | _ =>
    rw [hk] at h
    cases h

section Grow
variable {g : BpbGeometry} {n : Nat} (hg : g.Sound n) {d : Disk} {tail fresh : Nat}
include hg

theorem fatEntry_fillSectors {c k x : Nat} {s : Sector} (hc : validCluster g c = true)
    (hx : validCluster g x = true) (hk : k < g.fatCount) (i : Nat) :
    fatEntry g (fillSectors g c s i d) k x = fatEntry g d k x := by
  unfold fatEntry
  rw [fillSectors_fat hg hc (fatLba_bounds hg hx hk).2.2]

theorem agree_fillSectors {c : Nat} {s : Sector} (hc : validCluster g c = true) (i : Nat)
    (hagree : ∀ x, validCluster g x = true → Agree g d x) :
    ∀ x, validCluster g x = true → Agree g (fillSectors g c s i d) x := by
  intro x hx k hk
  rw [fatEntry_fillSectors hg hc hx hk, fatEntry_fillSectors hg hc hx hg.fatCountPos]
  exact hagree x hx k hk

theorem link_fillSectors {c : Nat} {s : Sector} (hc : validCluster g c = true) (i x : Nat) :
    link g (fillSectors g c s i d) x = link g d x := by
  unfold link
  by_cases hx : validCluster g x = true
  · rw [if_pos hx, if_pos hx, fatEntry_fillSectors hg hc hx hg.fatCountPos]
  · rw [if_neg hx, if_neg hx]

theorem does_freeFresh (hm : g.mirroringEnabled = true)
    (hagree : ∀ x, validCluster g x = true → Agree g d x) (hfresh : Free g d fresh) :
    Does g.totalSectors (freeChain (some g) fresh) (patchFat g (.linked [fresh]) d) (.ok ()) d := by
  have hv := validCluster_iff.mp hfresh.1
  have hbuilding : Building g d 0 [fresh] fresh fresh := by
    refine ⟨Nat.zero_le _, rfl, rfl, List.nodup_singleton _, ?_, ?_⟩
    · intro x hx
      rw [List.mem_singleton.mp hx]
      exact hfresh.2
    · intro x hx
      rw [List.mem_singleton.mp hx]
      omega
  exact hbuilding.does_free hg hm hagree (by omega)

theorem does_freeQuietly (hm : g.mirroringEnabled = true)
    (hagree : ∀ x, validCluster g x = true → Agree g d x) (hfresh : Free g d fresh) :
    Does g.totalSectors (freeChainQuietly (some g) fresh) (patchFat g (.linked [fresh]) d) (.ok ()) d := by
  unfold freeChainQuietly
  exact .bind (does_freeFresh hg hm hagree hfresh).attempt (.pure ())

theorem does_tailUnlinked (htail : validCluster g tail = true)
    (hend : ∀ k, k < g.fatCount → isEoc (fatEntry g d k tail) = true) : ∀ m, m ≤ g.fatCount →
    Does g.totalSectors (tailUnlinked g tail m) d (.ok true) d
  | 0, _ => .pure true
  | m + 1, hm => by
    have hk : g.fatCount - (m + 1) < g.fatCount := by omega
    have hread := value_readEntry hg htail hk d
    unfold tailUnlinked
    refine .bind (Does.attempt (.of_value (reads_readEntry _ _) hread)) ?_
    dsimp only
    rw [if_neg (by rw [hend _ hk]; decide)]
    exact does_tailUnlinked htail hend m (by omega)

/-- What a refused request leaves behind while a slot is prepared: at most sectors of a free cluster. -/
def Undone {α : Type} (g : BpbGeometry) (d : Disk) (r : Except Status α) (d' : Disk) : Prop :=
  (∃ e, r = .error e) ∧
    (d' = d ∨ ∃ fresh i, Free g d fresh ∧ i ≤ g.sectorsPerCluster ∧ d' = fillSectors g fresh Sector.zero i d)

omit hg in
theorem free_ne_tail (hfresh : Free g d fresh) {next : Option Nat} (htail : link g d tail = some next) :
    fresh ≠ tail := by
  rintro rfl
  have hzero : fat28 (fatEntry g d 0 fresh) = 0 := of_decide_eq_true hfresh.2
  unfold link at htail
  rw [if_pos hfresh.1] at htail
  unfold linkOf at htail
  rw [hzero] at htail
  cases htail

omit hg in
theorem linked_fresh (fresh k : Nat) : Patch.linked [fresh] k fresh = some endMark := if_pos rfl

theorem patchFat_remark (hfresh : validCluster g fresh = true) (t : Disk) :
    patchFat g (.entry fresh endMark) (patchFat g (.linked [fresh]) t) = patchFat g (.linked [fresh]) t := by
  -- the claimed cluster gets the end mark that it has
  apply patchFat_same hg
  intro k c w hk hw
  obtain ⟨rfl, rfl⟩ := entry_eq_some hw
  exact (fat28_patchFat hg hfresh hk (by decide) (linked_fresh _ k)).symm

omit hg in
theorem patchFat_link (tail fresh : Nat) :
    patchFat g (.entry tail fresh)
      (patchFat g (.linked [fresh]) (fillSectors g fresh Sector.zero g.sectorsPerCluster d)) =
        grown g tail fresh d := by
  unfold grown
  rw [patchFat_patchFat]
  congr 1
  funext k c
  unfold Patch.entry Patch.grow Patch.linked
  rw [chainValue_cons]
  split_ifs <;> rfl

theorem oneFault_growDirectory (hm : g.mirroringEnabled = true)
    (hagree : ∀ x, validCluster g x = true → Agree g d x) (htail : link g d tail = some none)
    (hfree : (freeClusters g d).take 1 = [fresh]) :
    OneFault g.totalSectors (growDirectory (some g) g tail) d (.ok fresh) (grown g tail fresh d)
      (Undone g d) := by
  have hmem : fresh ∈ (freeClusters g d).take 1 := by rw [hfree]; exact List.mem_singleton.mpr rfl
  have hfresh : Free g d fresh := mem_freeClusters (List.mem_of_mem_take hmem)
  have hne := free_ne_tail hfresh htail
  have hlen : 1 ≤ (freeClusters g d).length := by
    by_contra hlt
    rw [List.length_eq_zero_iff.mp (show (freeClusters g d).length = 0 by omega)] at hmem
    cases hmem
  have hallocate := oneFault_allocateChain hg hm hagree hlen
  rw [hfree, List.headD_cons] at hallocate
  have htailValid := link_valid htail
  have hsectors : ∀ i, Free g (fillSectors g fresh Sector.zero i d) fresh := by
    intro i
    refine ⟨hfresh.1, ?_⟩
    unfold isFree
    rw [fatEntry_fillSectors hg hfresh.1 hfresh.1 hg.fatCountPos]
    exact hfresh.2
  -- the cluster is given back on a disk that differs from `d` in its sectors only
  have hquiet := fun i => does_freeQuietly hg hm
    (agree_fillSectors hg (s := Sector.zero) hfresh.1 i hagree) (hsectors i)
  have hundone : ∀ i e, i ≤ g.sectorsPerCluster → Undone g d (.error e : Except Status Nat)
      (fillSectors g fresh Sector.zero i d) := fun i e hi => ⟨⟨e, rfl⟩, Or.inr ⟨fresh, i, hfresh, hi, rfl⟩⟩
  unfold growDirectory
  refine hallocate.bind ?_ ?_ (fun b t h => by obtain ⟨⟨e, he⟩, -⟩ := h; cases he)
  swap
  · exact fun e t h => ⟨h.1, Or.inl h.2⟩
  have hfill := oneFault_fillCluster hg (d := patchFat g (.linked [fresh]) d) hfresh.1 Sector.zero
    g.sectorsPerCluster (le_refl _)
  rw [Nat.sub_self, fillSectors_zero, ← patchFat_fillSectors hg hfresh.1] at hfill
  refine hfill.bind_attempt ?_ ?_
  swap
  · rintro y t ⟨⟨e, rfl⟩, i, hi, rfl⟩
    rw [← patchFat_fillSectors hg hfresh.1]
    exact ⟨_, _, .bind (hquiet i) (.throw _), hundone i _ hi⟩
  have hend : ∀ k, k < g.fatCount → isEoc (fatEntry g d k tail) = true := by
    intro k hk
    have hlast := htail
    unfold link at hlast
    rw [if_pos htailValid] at hlast
    have hzero := isEoc_of_last hlast
    unfold isEoc at hzero ⊢
    rw [hagree tail htailValid k hk]
    exact hzero
  -- from here on the sectors of the fresh cluster are zero
  have hagree' := agree_fillSectors hg (s := Sector.zero) hfresh.1 g.sectorsPerCluster hagree
  have hend' : ∀ k, k < g.fatCount → isEoc (fatEntry g
      (patchFat g (.linked [fresh]) (fillSectors g fresh Sector.zero g.sectorsPerCluster d)) k tail) = true := by
    intro k hk
    have hnone : Patch.linked [fresh] k tail = none := if_neg hne.symm
    rw [fatEntry_patchFat hg _ _ htailValid hk, hnone]
    dsimp only
    rw [fatEntry_fillSectors hg hfresh.1 htailValid hk]
    exact hend k hk
  have hagreeFresh : Agree g
      (patchFat g (.linked [fresh]) (fillSectors g fresh Sector.zero g.sectorsPerCluster d)) fresh := by
    intro k hk
    rw [fat28_patchFat hg hfresh.1 hk (by decide) (linked_fresh fresh k),
      fat28_patchFat hg hfresh.1 hg.fatCountPos (by decide) (linked_fresh fresh 0)]
  have hagreeTail : Agree g
      (patchFat g (.linked [fresh]) (fillSectors g fresh Sector.zero g.sectorsPerCluster d)) tail :=
    (agree_patchFat hg htailValid fun k _ => if_neg hne.symm).mpr (hagree' tail htailValid)
  have hmark := oneFault_writeFatEntry hg hm hfresh.1 entryValue_endMark hagreeFresh
  rw [patchFat_remark hg hfresh.1] at hmark
  have hlink := oneFault_writeFatEntry hg hm htailValid (entryValue_cluster hg hfresh.1) hagreeTail
  rw [patchFat_link] at hlink
  have hreclaim : Does g.totalSectors (reclaimIfUnlinked (some g) g tail fresh)
      (patchFat g (.linked [fresh]) (fillSectors g fresh Sector.zero g.sectorsPerCluster d)) (.ok ())
      (fillSectors g fresh Sector.zero g.sectorsPerCluster d) := by
    unfold reclaimIfUnlinked
    exact .bind (does_tailUnlinked hg htailValid hend' g.fatCount (le_refl _)) (hquiet _)
  -- a refused link is undone by looking at the tail first, a refused mark at once
  refine hmark.bind_attempt (hlink.bind_attempt (.pure fresh) ?_) ?_
  · rintro y t ⟨rfl, rfl⟩
    exact ⟨_, _, .bind hreclaim (.throw _), hundone _ _ (le_refl _)⟩
  · rintro y t ⟨rfl, rfl⟩
    exact ⟨_, _, .bind (hquiet _) (.throw _), hundone _ _ (le_refl _)⟩

end Grow

section Marker
variable {g : BpbGeometry} {n : Nat} (hg : g.Sound n) {d : Disk} {c tail : Nat} {chain before after : List Nat}
  {pre post : List DirectorySlot} {slot : DirectorySlot}
include hg

theorem slot_bounds (hvalid : ∀ x ∈ chain, validCluster g x = true) (h : slot ∈ dirSlots g chain) :
    validSlot g slot = true ∧ 0 < slot.lba ∧ slot.lba < g.totalSectors := by
  obtain ⟨x, hx, i, j, hi, hj, rfl⟩ := mem_dirSlots.mp h
  obtain ⟨hlo, hhi, -⟩ := dataLba_bounds hg (hvalid x hx) hi
  have hfirst := hg.firstDataEq
  have hbegin := hg.fatBeginPos
  refine ⟨?_, by dsimp only; omega, hhi⟩
  unfold validSlot
  simp only [Bool.and_eq_true, decide_eq_true_eq]
  exact ⟨⟨⟨hlo, hhi⟩, by omega⟩, by omega⟩

theorem value_nextMarker (hchain : Chain g d c (before ++ tail :: after))
    (split : clusterSlots g tail = pre ++ slot :: post) :
    value (nextMarker g slot tail) d = .ok (post ++ dirSlots g after).head? := by
  have hvalid := hchain.valid tail (List.mem_append_right _ List.mem_cons_self)
  have hlink := hchain.link_split
  have hlength := length_clusterSlots (g := g) tail
  have hget : (clusterSlots g tail)[pre.length]? = some slot := by
    rw [split, List.getElem?_append_right (le_refl _), Nat.sub_self, List.getElem?_cons_zero]
  have hpost : (clusterSlots g tail)[pre.length + 1]? = post.head? := by
    rw [split, List.getElem?_append_right (Nat.le_add_right _ 1), Nat.add_sub_cancel_left,
      List.getElem?_cons_succ, List.head?_eq_getElem?]
  have hlt : pre.length < g.sectorsPerCluster * 16 := by
    rw [split, List.length_append, List.length_cons] at hlength
    omega
  rw [clusterSlots_getElem? _ hlt] at hget
  obtain rfl := Option.some.inj hget
  have hfollow : pre.length + 1 < g.sectorsPerCluster * 16 → (post ++ dirSlots g after).head? =
      some ⟨g.dataLba tail ((pre.length + 1) / 16), (pre.length + 1) % 16 * 32⟩ := by
    intro hmore
    rw [clusterSlots_getElem? _ hmore] at hpost
    rw [List.head?_append, ← hpost, Option.some_or]
  generalize pre.length = m at hlt hfollow hpost
  obtain ⟨hlo, hhi, -⟩ := dataLba_bounds hg hvalid (show m / 16 < g.sectorsPerCluster by omega)
  have htotal := hg.totalLt
  have hmodulo : (g.dataLba tail (m / 16) - g.firstDataLba) % g.sectorsPerCluster = m / 16 := by
    unfold BpbGeometry.dataLba
    rw [show g.firstDataLba + (tail - 2) * g.sectorsPerCluster + m / 16 - g.firstDataLba =
      (tail - 2) * g.sectorsPerCluster + m / 16 by omega, Nat.mul_add_mod_self_right,
      Nat.mod_eq_of_lt (by omega)]
  unfold nextMarker
  dsimp only
  rw [subU32_eq hlo (by omega), hmodulo]
  -- the next slot is in the same sector, in the next sector, or in the next cluster of the chain
  by_cases hsector : m % 16 * 32 < 512 - 32
  · rw [if_pos hsector, hfollow (by omega), show (m + 1) / 16 = m / 16 by omega,
      show (m + 1) % 16 * 32 = m % 16 * 32 + 32 by omega]
    rfl
  rw [if_neg hsector]
  by_cases hcluster : m / 16 + 1 < g.sectorsPerCluster
  · obtain ⟨-, hhi', -⟩ := dataLba_bounds hg hvalid hcluster
    have hsucc : g.dataLba tail (m / 16) + 1 = g.dataLba tail (m / 16 + 1) := rfl
    rw [if_pos hcluster, hfollow (by omega), show (m + 1) / 16 = m / 16 + 1 by omega,
      show (m + 1) % 16 * 32 = 0 by omega, hsucc, Nat.mod_eq_of_lt (by omega)]
    rfl
  · have hnil : post = [] := by
      rw [List.getElem?_eq_none (by rw [hlength]; omega)] at hpost
      exact List.head?_eq_none_iff.mp hpost.symm
    have hnext := value_chainNext hg tail d
    rw [hlink, linkResult_some] at hnext
    rw [if_neg hcluster, value_bind_ok (reads_chainNext _ _) hnext, hnil, List.nil_append]
    cases after with
    | nil => rfl
    | cons next rest =>
      have hvalidNext := hchain.valid next
        (List.mem_append_right _ (List.mem_cons_of_mem tail List.mem_cons_self))
      have hchain' : Chain g d c ((before ++ [tail]) ++ next :: rest) := by
        rw [List.append_assoc]
        exact hchain
      have hcheck := value_chainNext hg next d
      rw [hchain'.link_split, linkResult_some] at hcheck
      have hhead : (dirSlots g (next :: rest)).head? = some ⟨g.dataLba next 0, 0⟩ := by
        have hpos := hg.spcPos
        rw [dirSlots_cons, List.head?_append, List.head?_eq_getElem?,
          clusterSlots_getElem? 0 (by omega)]
        rfl
      show value (chainNext g next false >>= _) d = _
      rw [value_bind_ok (reads_chainNext _ _) hcheck, directoryLba_eq hg hvalidNext hg.spcPos, hhead]
      rfl

omit hg in
theorem oneFault_clearEndMarker (hvalid : validSlot g slot = true) (hlba : slot.lba < g.totalSectors) :
    OneFault g.totalSectors (clearEndMarker g slot) d (.ok ()) (clearSlot d slot) (Refused d) := by
  unfold clearEndMarker
  rw [if_neg (by rw [hvalid]; decide)]
  refine (oneFault_read hlba d).bind_refused ?_ ⟨rfl, rfl⟩
  by_cases hzero : (d slot.lba).byte slot.offset = 0
  · have hsame : clearSlot d slot = d := by
      have hsector : (d slot.lba).setByte slot.offset 0 = d slot.lba := by
        refine Sector.ext_byte fun i hi => ?_
        rw [Sector.byte_setByte _ _ _ _ hi]
        split_ifs with heq
        · rw [heq, hzero]
        · rfl
      unfold clearSlot
      rw [hsector, Function.update_eq_self]
    rw [if_pos hzero, hsame]
    exact .pure ()
  · rw [if_neg hzero]
    exact oneFault_write .data hlba _ d

end Marker

/-- A slot that an entry can be put into without anything else becoming visible. -/
def Vacant (d : Disk) (slots : List DirectorySlot) (slot : DirectorySlot) : Prop :=
  ∃ pre post, slots = pre ++ slot :: post ∧ (∀ x ∈ pre, slotUsed d x = true) ∧
    (slotDeleted d slot = true ∨
      slotUsed d slot = false ∧ ∃ marker rest, post = marker :: rest ∧ slotUsed d marker = false)

def SameInUse (d d' : Disk) (slots slots' : List DirectorySlot) : Prop :=
  inUse d' slots' = inUse d slots ∧ ∀ x ∈ inUse d slots, entryAt d' x = entryAt d x

def growthNeeded (g : BpbGeometry) (d : Disk) (free : FreeSearch) (tail : Nat) : Prop :=
  free.freeSlot.lba = 0 ∨ free.freeIsEnd = true ∧ value (markerFor g free tail) d = .ok none

/-- The directory with a slot prepared: nothing visible has changed, and its chain is the old one or one
cluster longer. -/
structure Prepared (g : BpbGeometry) (d : Disk) (c : Nat) (chain : List Nat) (tail : Nat)
    (slot : DirectorySlot) (fresh : Nat) (d' : Disk) (chain' : List Nat) : Prop where
  linked : Chain g d' c chain'
  same : SameInUse d d' (dirSlots g chain) (dirSlots g chain')
  vacant : Vacant d' (dirSlots g chain') slot
  change : fresh = 0 ∧ chain' = chain ∧ (d' = d ∨ ∃ marker ∈ dirSlots g chain, d' = clearSlot d marker) ∨
    Free g d fresh ∧ chain' = chain ++ [fresh] ∧ link g d tail = some none ∧ tail ∈ chain ∧
      d' = grown g tail fresh d

section Prepare
variable {g : BpbGeometry} {n : Nat} (hg : g.Sound n) {d : Disk} {c tail fresh : Nat} {chain : List Nat}
  {slot : DirectorySlot}
include hg

theorem fatEntry_update {lba k x : Nat} {s : Sector} (hlba : g.firstDataLba ≤ lba)
    (hx : validCluster g x = true) (hk : k < g.fatCount) :
    fatEntry g (Function.update d lba s) k x = fatEntry g d k x := by
  have hlt := (fatLba_bounds hg hx hk).2.2
  unfold fatEntry
  rw [Function.update_of_ne (by omega)]

theorem link_update {lba : Nat} {s : Sector} (hlba : g.firstDataLba ≤ lba) (x : Nat) :
    link g (Function.update d lba s) x = link g d x := by
  unfold link
  by_cases hx : validCluster g x = true
  · rw [if_pos hx, if_pos hx, fatEntry_update hg hlba hx hg.fatCountPos]
  · rw [if_neg hx, if_neg hx]

theorem slot_lba (hvalid : ∀ x ∈ chain, validCluster g x = true) (h : slot ∈ dirSlots g chain) :
    g.firstDataLba ≤ slot.lba := by
  obtain ⟨x, hx, i, j, hi, hj, rfl⟩ := mem_dirSlots.mp h
  exact (dataLba_bounds hg (hvalid x hx) hi).1

theorem grown_data {x i : Nat} (hfresh : validCluster g fresh = true) (hx : validCluster g x = true)
    (hi : i < g.sectorsPerCluster) (hne : x ≠ fresh) :
    grown g tail fresh d (g.dataLba x i) = d (g.dataLba x i) := by
  have hlo := (dataLba_bounds hg hx hi).1
  unfold grown
  rw [patchFat_outside (Or.inr hlo)]
  refine if_neg fun hin => ?_
  obtain ⟨j, hj⟩ : ∃ j, g.dataLba x i = g.dataLba fresh j := by
    refine ⟨g.dataLba x i - g.dataLba fresh 0, ?_⟩
    unfold BpbGeometry.dataLba at hin ⊢
    omega
  have hlt : j < g.sectorsPerCluster := by
    rw [hj] at hin
    unfold BpbGeometry.dataLba at hin
    omega
  exact hne (dataLba_inj hx hfresh hi hlt hj).1

theorem grown_fresh {i : Nat} (hfresh : validCluster g fresh = true) (hi : i < g.sectorsPerCluster) :
    grown g tail fresh d (g.dataLba fresh i) = Sector.zero := by
  unfold grown
  rw [patchFat_outside (Or.inr (dataLba_bounds hg hfresh hi).1)]
  refine if_pos ?_
  unfold BpbGeometry.dataLba
  omega

theorem entryAt_grown (hvalid : ∀ x ∈ chain, validCluster g x = true) (hfresh : validCluster g fresh = true)
    (hnot : fresh ∉ chain) (hslot : slot ∈ dirSlots g chain) :
    entryAt (grown g tail fresh d) slot = entryAt d slot := by
  obtain ⟨x, hx, i, j, hi, -, rfl⟩ := mem_dirSlots.mp hslot
  have hne : x ≠ fresh := by
    rintro rfl
    exact hnot hx
  unfold entryAt
  rw [grown_data hg hfresh (hvalid x hx) hi hne]

theorem slotUsed_grown (hfresh : validCluster g fresh = true) (hslot : slot ∈ clusterSlots g fresh) :
    slotUsed (grown g tail fresh d) slot = false := by
  obtain ⟨i, j, hi, -, rfl⟩ := mem_clusterSlots.mp hslot
  unfold slotUsed entryAt
  rw [grown_fresh hg hfresh hi]
  simp [Entry.byte, Sector.slot]

theorem link_grown_other {x : Nat} (hfresh : validCluster g fresh = true) (ht : x ≠ tail) (hf : x ≠ fresh) :
    link g (grown g tail fresh d) x = link g d x := by
  have hnone : Patch.grow tail fresh 0 x = none := by
    unfold Patch.grow
    rw [if_neg ht, if_neg hf]
  unfold grown
  rw [link_patchFat hg hnone, link_fillSectors hg hfresh]

theorem chain_grown {before : List Nat} (hchain : Chain g d c (before ++ [tail])) (hfresh : Free g d fresh) :
    Chain g (grown g tail fresh d) c (before ++ [tail, fresh]) := by
  have htail := hchain.link_split
  have hne := free_ne_tail hfresh htail
  have hnodup := hchain.nodup
  have hvalid := hchain.valid tail (List.mem_append_right _ (List.mem_singleton.mpr rfl))
  refine hchain.concat ?_ ?_ ?_
  · intro w hw
    have hwt : w ≠ tail := by
      rintro rfl
      exact (List.nodup_append.mp hnodup).2.2 w hw w (List.mem_singleton.mpr rfl) rfl
    have hwf : w ≠ fresh := by
      rintro rfl
      obtain ⟨r, hr⟩ := hchain.linked w (List.mem_append_left _ hw)
      exact free_ne_tail hfresh hr rfl
    exact link_grown_other hg hfresh.1 hwt hwf
  · unfold grown
    rw [link_patchFat_some hg hvalid (if_pos rfl), linkOf_cluster hg hfresh.1]
  · have hvalue : Patch.grow tail fresh 0 fresh = some endMark := by
      unfold Patch.grow
      rw [if_neg hne, if_pos rfl]
    unfold grown
    rw [link_patchFat_some hg hfresh.1 hvalue, linkOf_endMark]

omit hg in
theorem free_notMem (hchain : Chain g d c chain) (hfresh : Free g d fresh) : fresh ∉ chain := by
  intro hmem
  obtain ⟨r, hr⟩ := hchain.linked fresh hmem
  exact free_ne_tail hfresh hr rfl

theorem prepared_grown {before : List Nat} (pre rest : List DirectorySlot) (marker : DirectorySlot)
    (hchain : Chain g d c (before ++ [tail])) (hfresh : Free g d fresh)
    (hsplit : dirSlots g (before ++ [tail]) ++ clusterSlots g fresh = pre ++ slot :: marker :: rest)
    (hpre : ∀ x ∈ pre, x ∈ dirSlots g (before ++ [tail]) ∧ slotUsed d x = true)
    (hinUse : inUse d (dirSlots g (before ++ [tail])) = pre)
    (hslot : slotUsed (grown g tail fresh d) slot = false) (hmarker : marker ∈ clusterSlots g fresh) :
    Prepared g d c (before ++ [tail]) tail slot fresh (grown g tail fresh d)
      (before ++ [tail] ++ [fresh]) := by
  -- growth keeps what is visible and gives room behind the old slots
  have hentry : ∀ x ∈ pre, entryAt (grown g tail fresh d) x = entryAt d x := fun x hx =>
    entryAt_grown hg hchain.valid hfresh.1 (free_notMem hchain hfresh) (hpre x hx).1
  have hused : ∀ x ∈ pre, slotUsed (grown g tail fresh d) x = true := fun x hx =>
    (slotUsed_congr (hentry x hx)).trans (hpre x hx).2
  have hslots : dirSlots g (before ++ [tail] ++ [fresh]) = pre ++ slot :: marker :: rest := by
    rw [dirSlots_append, dirSlots_singleton, hsplit]
  constructor
  case linked =>
    rw [List.append_assoc]
    exact chain_grown hg hchain hfresh
  case same =>
    constructor
    · rw [hslots, inUse_end hused hslot, hinUse]
    · rw [hinUse]
      exact hentry
  case vacant =>
    exact ⟨pre, marker :: rest, hslots, hused, Or.inr ⟨hslot, marker, rest, rfl,
      slotUsed_grown hg hfresh.1 hmarker⟩⟩
  case change =>
    exact Or.inr ⟨hfresh, rfl, hchain.link_split, List.mem_append_right _ (List.mem_singleton.mpr rfl), rfl⟩

theorem prepared_marker {pre rest : List DirectorySlot} {marker : DirectorySlot} (hchain : Chain g d c chain)
    (hslots : dirSlots g chain = pre ++ slot :: marker :: rest) (used : ∀ x ∈ pre, slotUsed d x = true)
    (unused : slotUsed d slot = false) :
    Prepared g d c chain tail slot 0 (clearSlot d marker) chain := by
  have hnodup := dirSlots_nodup hchain.valid hchain.nodup
  have hmem : ∀ x, x ∈ pre ++ slot :: marker :: rest → x ∈ dirSlots g chain := fun x hx => hslots ▸ hx
  have hslot := hmem slot (List.mem_append_right _ List.mem_cons_self)
  have hmarker := hmem marker (List.mem_append_right _ (List.mem_cons_of_mem slot List.mem_cons_self))
  have haligned := aligned_of_mem hmarker
  rw [hslots, List.nodup_append] at hnodup
  have hentry : ∀ x ∈ pre, entryAt (clearSlot d marker) x = entryAt d x := by
    intro x hx
    refine entryAt_clearSlot_ne haligned (aligned_of_mem (hmem x (List.mem_append_left _ hx))) ?_
    rintro rfl
    exact hnodup.2.2 x hx x (List.mem_cons_of_mem slot List.mem_cons_self) rfl
  have hused : ∀ x ∈ pre, slotUsed (clearSlot d marker) x = true :=
    fun x hx => (slotUsed_congr (hentry x hx)).trans (used x hx)
  have hend : slotUsed (clearSlot d marker) slot = false := by
    have hne : slot ≠ marker := by
      rintro rfl
      exact (List.nodup_cons.mp hnodup.2.1).1 List.mem_cons_self
    rw [slotUsed_congr (entryAt_clearSlot_ne haligned (aligned_of_mem hslot) hne)]
    exact unused
  constructor
  case linked => exact hchain.congr fun y _ => link_update hg (slot_lba hg hchain.valid hmarker) y
  case same =>
    constructor
    · rw [hslots, inUse_end hused hend, inUse_end used unused]
    · rw [hslots, inUse_end used unused]
      exact hentry
  case vacant =>
    exact ⟨pre, marker :: rest, hslots, hused, Or.inr ⟨hend, marker, rest, rfl, slotUsed_clearSlot haligned⟩⟩
  case change => exact Or.inl ⟨rfl, rfl, Or.inr ⟨marker, hmarker, rfl⟩⟩

theorem oneFault_prepareGrown (hm : g.mirroringEnabled = true)
    (hagree : ∀ x, validCluster g x = true → Agree g d x) (htail : link g d tail = some none)
    (hfree : (freeClusters g d).take 1 = [fresh]) {free : FreeSearch} {marker : Option DirectorySlot}
    (hmarker : value (markerFor g free tail) d = .ok marker)
    (hgrow : free.freeSlot.lba = 0 ∨ free.freeIsEnd = true ∧ marker.isNone = true) :
    OneFault g.totalSectors (prepareSlot (some g) g free tail) d
      (.ok (if free.freeSlot.lba = 0 then ⟨g.dataLba fresh 0, 0⟩ else free.freeSlot, fresh))
      (grown g tail fresh d) (Undone g d) := by
  have hmem : fresh ∈ (freeClusters g d).take 1 := by rw [hfree]; exact List.mem_singleton.mpr rfl
  have hfresh : Free g d fresh := mem_freeClusters (List.mem_of_mem_take hmem)
  unfold prepareSlot
  refine (oneFault_value (reads_markerFor free tail) hmarker).bind_refused ?_ ⟨⟨_, rfl⟩, Or.inl rfl⟩
  rw [if_pos hgrow]
  refine (oneFault_growDirectory hg hm hagree htail hfree).bind ?_ (fun e t h => ⟨⟨e, rfl⟩, h.2⟩) ?_
  · rw [directoryLba_eq hg hfresh.1 hg.spcPos]
    exact .pure _
  · rintro b t ⟨⟨e, he⟩, -⟩
    cases he

omit hg in
theorem oneFault_prepareMarker {marker : DirectorySlot} {free : FreeSearch} (hpos : 0 < free.freeSlot.lba)
    (hmarker : value (markerFor g free tail) d = .ok (some marker)) (hvalid : validSlot g marker = true)
    (hlba : marker.lba < g.totalSectors) :
    OneFault g.totalSectors (prepareSlot (some g) g free tail) d (.ok (free.freeSlot, 0))
      (clearSlot d marker) (Undone g d) := by
  have hno : ¬ (free.freeSlot.lba = 0 ∨ free.freeIsEnd = true ∧ (some marker).isNone = true) := by
    rintro (h | h)
    · omega
    · cases h.2
  unfold prepareSlot
  refine (oneFault_value (reads_markerFor free tail) hmarker).bind_refused ?_ ⟨⟨_, rfl⟩, Or.inl rfl⟩
  rw [if_neg hno]
  exact (oneFault_clearEndMarker hvalid hlba).bind_refused (.pure _) ⟨⟨_, rfl⟩, Or.inl rfl⟩

theorem clusterSlots_first_two (c : Nat) :
    ∃ marker rest, clusterSlots g c = ⟨g.dataLba c 0, 0⟩ :: marker :: rest := by
  -- a new cluster begins with two slots, one for the entry and one for the end marker
  have hspc := hg.spcPos
  have hfirst := clusterSlots_getElem? (g := g) (c := c) 0 (by omega)
  have hsecond := clusterSlots_getElem? (g := g) (c := c) 1 (by omega)
  cases hcluster : clusterSlots g c with
  | nil =>
    rw [hcluster] at hfirst
    cases hfirst
  | cons slot rest =>
    cases rest with
    | nil =>
      rw [hcluster] at hsecond
      cases hsecond
    | cons marker rest =>
      rw [hcluster] at hfirst
      obtain rfl : slot = ⟨g.dataLba c 0, 0⟩ := Option.some.inj hfirst
      exact ⟨marker, rest, rfl⟩

theorem dirSlots_eq_nil {clusters : List Nat} (h : dirSlots g clusters = []) : clusters = [] := by
  have hspc := hg.spcPos
  cases clusters with
  | nil => rfl
  | cons x clusters =>
    have hlen := length_clusterSlots (g := g) x
    rw [dirSlots_cons] at h
    rw [(List.append_eq_nil_iff.mp h).1, List.length_nil] at hlen
    omega

theorem oneFault_prepareDeleted (hchain : Chain g d c chain) {pre post : List DirectorySlot}
    (split : dirSlots g chain = pre ++ slot :: post) (used : ∀ x ∈ pre, slotUsed d x = true)
    (deleted : slotDeleted d slot = true) :
    Prepared g d c chain tail slot 0 d chain ∧
      OneFault g.totalSectors (prepareSlot (some g) g ⟨true, slot, false⟩ tail) d (.ok (slot, 0)) d (Undone g d) := by
  -- a slot inside the entries in use: no marker is cleared and nothing grows
  have hmem : slot ∈ dirSlots g chain := by rw [split]; exact List.mem_append_right _ List.mem_cons_self
  obtain ⟨-, hpos, -⟩ := slot_bounds hg hchain.valid hmem
  have hno : ¬ (slot.lba = 0 ∨ false = true ∧ (none : Option DirectorySlot).isNone = true) := by
    rintro (h | h)
    · omega
    · cases h.1
  refine ⟨⟨hchain, ⟨rfl, fun _ _ => rfl⟩, ⟨pre, post, split, used, Or.inl deleted⟩, Or.inl ⟨rfl, rfl, Or.inl rfl⟩⟩, ?_⟩
  unfold prepareSlot
  refine OneFault.bind_refused (a := none) (.pure none) ?_ ⟨⟨_, rfl⟩, Or.inl rfl⟩
  rw [if_neg hno]
  exact OneFault.bind_refused (a := ()) (.pure ()) (.pure _) ⟨⟨_, rfl⟩, Or.inl rfl⟩

variable (hm : g.mirroringEnabled = true) (hagree : ∀ x, validCluster g x = true → Agree g d x)
include hm hagree

theorem oneFault_prepareLast {before : List Nat} {pre : List DirectorySlot} (hchain : Chain g d c (before ++ [tail]))
    (hslots : dirSlots g (before ++ [tail]) = dirSlots g before ++ pre ++ [slot])
    (used : ∀ x ∈ dirSlots g before ++ pre, slotUsed d x = true) (unused : slotUsed d slot = false)
    (hmarker : value (markerFor g ⟨true, slot, true⟩ tail) d = .ok none)
    (hfree : (freeClusters g d).take 1 = [fresh]) (hfresh : Free g d fresh) :
    Prepared g d c (before ++ [tail]) tail slot fresh (grown g tail fresh d) (before ++ [tail] ++ [fresh]) ∧
      OneFault g.totalSectors (prepareSlot (some g) g ⟨true, slot, true⟩ tail) d (.ok (slot, fresh))
        (grown g tail fresh d) (Undone g d) := by
  -- the slot is the last one of the chain, so the end marker needs a new cluster
  have hmem : slot ∈ dirSlots g (before ++ [tail]) := by
    rw [hslots]
    exact List.mem_append_right _ List.mem_cons_self
  obtain ⟨-, hpos, -⟩ := slot_bounds hg hchain.valid hmem
  have hgrown := oneFault_prepareGrown hg hm hagree hchain.link_split hfree hmarker (Or.inr ⟨rfl, rfl⟩)
  rw [if_neg (Nat.pos_iff_ne_zero.mp hpos)] at hgrown
  refine ⟨?_, hgrown⟩
  obtain ⟨marker, rest, hcluster⟩ := clusterSlots_first_two hg fresh
  refine prepared_grown hg (dirSlots g before ++ pre) (marker :: rest) ⟨g.dataLba fresh 0, 0⟩ hchain hfresh ?_ ?_ ?_ ?_ ?_
  · rw [hslots, hcluster, List.append_assoc]
    rfl
  · intro x hx
    refine ⟨?_, used x hx⟩
    rw [hslots]
    exact List.mem_append_left _ hx
  · rw [hslots, inUse_end used unused]
  · rw [slotUsed_congr (entryAt_grown hg hchain.valid hfresh.1 (free_notMem hchain hfresh) hmem)]
    exact unused
  · rw [hcluster]
    exact List.mem_cons_self

theorem oneFault_prepareFull {before : List Nat} (hchain : Chain g d c (before ++ [tail]))
    (used : ∀ x ∈ dirSlots g (before ++ [tail]), slotUsed d x = true)
    (hfree : (freeClusters g d).take 1 = [fresh]) (hfresh : Free g d fresh) :
    Prepared g d c (before ++ [tail]) tail ⟨g.dataLba fresh 0, 0⟩ fresh (grown g tail fresh d) (before ++ [tail] ++ [fresh]) ∧
      OneFault g.totalSectors (prepareSlot (some g) g .none tail) d (.ok (⟨g.dataLba fresh 0, 0⟩, fresh))
        (grown g tail fresh d) (Undone g d) := by
  -- the entry and the end marker behind it both go into the new cluster
  have hmarker : value (markerFor g FreeSearch.none tail) d = .ok none := rfl
  have hgrown := oneFault_prepareGrown hg hm hagree hchain.link_split hfree hmarker (Or.inl rfl)
  rw [if_pos (show FreeSearch.none.freeSlot.lba = 0 from rfl)] at hgrown
  refine ⟨?_, hgrown⟩
  obtain ⟨marker, rest, hcluster⟩ := clusterSlots_first_two hg fresh
  refine prepared_grown hg (dirSlots g (before ++ [tail])) rest marker hchain hfresh ?_ ?_ ?_ ?_ ?_
  · rw [hcluster]
  · exact fun x hx => ⟨hx, used x hx⟩
  · exact inUse_all used
  · refine slotUsed_grown hg hfresh.1 ?_
    rw [hcluster]
    exact List.mem_cons_self
  · rw [hcluster]
    exact List.mem_cons_of_mem _ List.mem_cons_self

/-- A slot is prepared, with at most one request refused on the way. -/
theorem oneFault_prepareSlot (hchain : Chain g d c chain) {free : FreeSearch} (hvacancy : Vacancy g d chain free tail)
    (hspace : growthNeeded g d free tail → freeClusters g d ≠ []) :
    ∃ slot fresh d' chain', Prepared g d c chain tail slot fresh d' chain' ∧
      OneFault g.totalSectors (prepareSlot (some g) g free tail) d (.ok (slot, fresh)) d' (Undone g d) := by
  have hroom : growthNeeded g d free tail → ∃ fresh, (freeClusters g d).take 1 = [fresh] ∧ Free g d fresh := by
    intro hgrow
    cases hlist : freeClusters g d with
    | nil => exact absurd hlist (hspace hgrow)
    | cons fresh rest =>
      refine ⟨fresh, rfl, mem_freeClusters ?_⟩
      rw [hlist]
      exact List.mem_cons_self
  cases hvacancy with
  | deleted pre post slot _ split used deleted =>
    exact ⟨slot, 0, d, chain, oneFault_prepareDeleted hg hchain split used deleted⟩
  | atEnd before after _ pre post slot clusters split used unused =>
    subst clusters
    have hslots := dirSlots_split split before after
    have hmarker : value (markerFor g ⟨true, slot, true⟩ tail) d = .ok (post ++ dirSlots g after).head? :=
      value_nextMarker hg hchain split
    cases hrest : post ++ dirSlots g after with
    -- the slot behind, here or in the next cluster, becomes the end marker
    | cons marker rest =>
      rw [hrest] at hmarker hslots
      have hinSlot : slot ∈ dirSlots g (before ++ tail :: after) := by
        rw [hslots]
        exact List.mem_append_right _ List.mem_cons_self
      have hinMarker : marker ∈ dirSlots g (before ++ tail :: after) := by
        rw [hslots]
        exact List.mem_append_right _ (List.mem_cons_of_mem slot List.mem_cons_self)
      obtain ⟨-, hpos, -⟩ := slot_bounds hg hchain.valid hinSlot
      obtain ⟨hvalid, -, hlba⟩ := slot_bounds hg hchain.valid hinMarker
      exact ⟨slot, 0, _, _, prepared_marker hg hchain hslots used unused,
        @oneFault_prepareMarker g d tail marker ⟨true, slot, true⟩ hpos hmarker hvalid hlba⟩
    | nil =>
      obtain rfl := dirSlots_eq_nil hg (List.append_eq_nil_iff.mp hrest).2
      rw [hrest] at hmarker hslots
      obtain ⟨fresh, hfree, hfresh⟩ := hroom (Or.inr ⟨rfl, hmarker⟩)
      exact ⟨slot, fresh, _, _,
        oneFault_prepareLast hg hm hagree hchain hslots used unused hmarker hfree hfresh⟩
  | full before _ clusters used =>
    subst clusters
    obtain ⟨fresh, hfree, hfresh⟩ := hroom (Or.inl rfl)
    exact ⟨_, fresh, _, _, oneFault_prepareFull hg hm hagree hchain used hfree hfresh⟩

end Prepare

end Linux95.Fat32
