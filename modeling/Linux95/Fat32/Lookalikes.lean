import Linux95.Fat32.Publication
import Linux95.Fat32.Walks

/-! Which lookups a change of the disk is seen by. A directory whose clusters are left alone shows what it
showed; an entry that is added or deleted is seen by lookups of its own name only. -/

namespace Linux95.Fat32
open Base Storage Write

structure Alike (g : BpbGeometry) (d d' : Disk) (c : Nat) : Prop where
  linked : ∃ l, Chain g d' c l
  slots : usedSlots g d' c = usedSlots g d c
  entries : ∀ x ∈ usedSlots g d c, entryAt d' x = entryAt d x

/-- What is in use is as it was: the links and the sectors of every cluster that has a link. -/
def KeepsInUse (g : BpbGeometry) (d d' : Disk) : Prop :=
  ∀ x, link g d x ≠ none → link g d' x = link g d x ∧
    ∀ i, i < g.sectorsPerCluster → d' (g.dataLba x i) = d (g.dataLba x i)

section Alike
variable {g : BpbGeometry} {d d' d'' : Disk} {c : Nat} {l l' : List Nat} {name : ShortName} {slot : DirectorySlot}

theorem Alike.trans (h : Alike g d d' c) (h' : Alike g d' d'' c) : Alike g d d'' c where
  linked := h'.linked
  slots := h'.slots.trans h.slots
  entries := fun x hx => (h'.entries x (h.slots ▸ hx)).trans (h.entries x hx)

theorem Alike.lookup (h : Alike g d d' c) (name : ShortName) : lookup g d' c name = lookup g d c name := by
  unfold Fat32.lookup
  rw [h.slots]
  exact find_congr h.entries

theorem alike_of_slots (hl : Chain g d c l) (hl' : Chain g d' c l')
    (h : SameInUse d d' (dirSlots g l) (dirSlots g l')) : Alike g d d' c where
  linked := ⟨l', hl'⟩
  slots := by rw [usedSlots_chain hl, usedSlots_chain hl', h.1]
  entries := by
    rw [usedSlots_chain hl]
    exact h.2

theorem alike_of_sectors (hl : Chain g d c l) (hl' : Chain g d' c l)
    (h : ∀ x ∈ l, ∀ i, i < g.sectorsPerCluster → d' (g.dataLba x i) = d (g.dataLba x i)) : Alike g d d' c := by
  have hentries : ∀ slot ∈ dirSlots g l, entryAt d' slot = entryAt d slot := by
    intro slot hslot
    obtain ⟨x, hx, i, j, hi, -, rfl⟩ := mem_dirSlots.mp hslot
    unfold entryAt
    rw [h x hx i hi]
  exact alike_of_slots hl hl' ⟨inUse_congr hentries, fun slot hslot => hentries slot (mem_inUse hslot).1⟩

theorem Chain.alike (hl : Chain g d c l) : Alike g d d c := alike_of_sectors hl hl fun _ _ _ _ => rfl

theorem KeepsInUse.refl (g : BpbGeometry) (d : Disk) : KeepsInUse g d d := fun _ _ => ⟨rfl, fun _ _ => rfl⟩

theorem KeepsInUse.trans (h : KeepsInUse g d d') (h' : KeepsInUse g d' d'') : KeepsInUse g d d'' := by
  intro x hx
  obtain ⟨hlink, hdata⟩ := h x hx
  obtain ⟨hlink', hdata'⟩ := h' x (by rwa [hlink])
  exact ⟨hlink'.trans hlink, fun i hi => (hdata' i hi).trans (hdata i hi)⟩

theorem Chain.linked_ne (hl : Chain g d c l) : ∀ x ∈ l, link g d x ≠ none := by
  intro x hx hnone
  obtain ⟨r, hr⟩ := hl.linked x hx
  rw [hnone] at hr
  cases hr

theorem KeepsInUse.chain (h : KeepsInUse g d d') (hl : Chain g d c l) : Chain g d' c l :=
  hl.congr fun x hx => (h x (hl.linked_ne x hx)).1

theorem KeepsInUse.alike (h : KeepsInUse g d d') (hl : Chain g d c l) : Alike g d d' c :=
  alike_of_sectors hl (h.chain hl) fun x hx => (h x (hl.linked_ne x hx)).2

theorem Untouched.alike {n : Nat} (hg : g.Sound n) {clusters : List Nat} (h : Untouched g d d' clusters)
    (hvalid : ∀ x ∈ clusters, validCluster g x = true) (hl : Chain g d c l) (hdisjoint : List.Disjoint l clusters) :
    Alike g d d' c :=
  alike_of_sectors hl (h.chain hg hvalid hl hdisjoint).1 (h.chain hg hvalid hl hdisjoint).2

theorem keepsDirectories_of_alike {n : Nat} (hg : g.Sound n) (h : ∀ c, Directory g d c → Alike g d d' c) :
    KeepsDirectories g d d' := by
  intro c name slot hc _ hfind _
  have halike := h c hc
  obtain ⟨l', hl'⟩ := halike.linked
  rw [value_found hg hl' ((halike.lookup name).trans hfind), halike.entries slot (lookup_mem hfind).1]

end Alike

section InUse
variable {g : BpbGeometry} {n : Nat} (hg : g.Sound n) {d : Disk} {p : Patch}
include hg

theorem keepsInUse_patch (h : ∀ x, link g d x ≠ none → p 0 x = none) : KeepsInUse g d (patchFat g p d) := by
  intro x hx
  refine ⟨link_patchFat hg (h x hx), fun i hi => ?_⟩
  obtain ⟨r, hr⟩ := Option.ne_none_iff_exists'.mp hx
  exact patchFat_outside (Or.inr (dataLba_bounds hg (link_valid hr) hi).1)

omit hg in
theorem Free.unlinked {x : Nat} (h : Free g d x) : link g d x = none := by
  unfold link
  rw [if_pos h.1]
  have hzero : fat28 (fatEntry g d 0 x) = 0 := of_decide_eq_true h.2
  unfold linkOf
  rw [hzero]
  rfl

theorem keepsInUse_linked {chain : List Nat} (h : ∀ x ∈ chain, Free g d x) :
    KeepsInUse g d (patchFat g (.linked chain) d) := by
  refine keepsInUse_patch hg fun x hx => chainValue_of_notMem fun hmem => hx (h x hmem).unlinked

theorem keepsInUse_endMark {tail : Nat} (h : link g d tail = some none) :
    KeepsInUse g d (patchFat g (.entry tail endMark) d) := by
  intro x hx
  obtain ⟨r, hr⟩ := Option.ne_none_iff_exists'.mp hx
  refine ⟨?_, fun i hi => patchFat_outside (Or.inr (dataLba_bounds hg (link_valid hr) hi).1)⟩
  by_cases htail : x = tail
  · subst htail
    rw [link_patchFat_some hg (link_valid hr) (if_pos rfl), linkOf_endMark, h]
  · exact link_patchFat hg (if_neg htail)

end InUse

def OnlyData (g : BpbGeometry) (chain : List Nat) (d d' : Disk) : Prop :=
  ∀ lba, (∀ x ∈ chain, ∀ i, i < g.sectorsPerCluster → lba ≠ g.dataLba x i) → d' lba = d lba

section OnlyData
variable {g : BpbGeometry} {d d' d'' : Disk} {chain : List Nat}

theorem OnlyData.refl (g : BpbGeometry) (chain : List Nat) (d : Disk) : OnlyData g chain d d := fun _ _ => rfl

theorem OnlyData.trans (h : OnlyData g chain d d') (h' : OnlyData g chain d' d'') : OnlyData g chain d d'' :=
  fun lba hout => (h' lba hout).trans (h lba hout)

theorem onlyData_fill {x : Nat} (hx : x ∈ chain) {k : Nat} (hk : k ≤ g.sectorsPerCluster) (s : Sector) :
    OnlyData g chain d (fillSectors g x s k d) := by
  intro lba hout
  refine if_neg fun hin => ?_
  refine hout x hx (lba - g.dataLba x 0) ?_ ?_
  · unfold BpbGeometry.dataLba at hin ⊢
    omega
  · unfold BpbGeometry.dataLba at hin ⊢
    omega

variable {n : Nat} (hg : g.Sound n) (hvalid : ∀ x ∈ chain, validCluster g x = true)
include hg hvalid

theorem OnlyData.fat (h : OnlyData g chain d d') {lba : Nat} (hlba : lba < g.firstDataLba) : d' lba = d lba := by
  -- sectors of clusters lie behind the FAT
  refine h lba fun x hx i hi heq => ?_
  have hlo := (dataLba_bounds hg (hvalid x hx) hi).1
  omega

theorem OnlyData.fatEntry (h : OnlyData g chain d d') {k x : Nat} (hx : validCluster g x = true)
    (hk : k < g.fatCount) : fatEntry g d' k x = Fat32.fatEntry g d k x := by
  unfold Fat32.fatEntry
  rw [h.fat hg hvalid (fatLba_bounds hg hx hk).2.2]

theorem OnlyData.link (h : OnlyData g chain d d') (x : Nat) : link g d' x = Fat32.link g d x := by
  unfold Fat32.link
  by_cases hx : validCluster g x = true
  · rw [if_pos hx, if_pos hx, h.fatEntry hg hvalid hx hg.fatCountPos]
  · rw [if_neg hx, if_neg hx]

theorem OnlyData.agree (h : OnlyData g chain d d') {x : Nat} (hx : validCluster g x = true)
    (hagree : Agree g d x) : Agree g d' x := by
  intro k hk
  rw [h.fatEntry hg hvalid hx hk, h.fatEntry hg hvalid hx hg.fatCountPos]
  exact hagree k hk

omit hg in
theorem OnlyData.other (h : OnlyData g chain d d') {x i : Nat} (hx : validCluster g x = true)
    (hi : i < g.sectorsPerCluster) (hout : x ∉ chain) : d' (g.dataLba x i) = d (g.dataLba x i) := by
  refine h _ fun y hy j hj heq => ?_
  rw [(dataLba_inj hx (hvalid y hy) hi hj heq).1] at hout
  exact hout hy

theorem OnlyData.keepsInUse (h : OnlyData g chain d d') (hfree : ∀ x ∈ chain, Fat32.link g d x = none) :
    KeepsInUse g d d' := by
  intro x hx
  obtain ⟨r, hr⟩ := Option.ne_none_iff_exists'.mp hx
  exact ⟨h.link hg hvalid x, fun i hi => h.other hvalid (link_valid hr) hi fun hmem => hx (hfree x hmem)⟩

end OnlyData

section Changed
variable {d d' : Disk} {slots : List DirectorySlot} {slot s : DirectorySlot} {name : ShortName}

theorem find_skip (hother : ∀ x ∈ slots, x ≠ slot → isHit d' name x = isHit d name x)
    (hskip : isHit d' name slot = false) (h : slots.find? (isHit d name) = some s) (hne : s ≠ slot) :
    slots.find? (isHit d' name) = some s := by
  induction slots with
  | nil => cases h
  | cons x slots ih =>
    have hrest := ih fun y hy => hother y (List.mem_cons_of_mem x hy)
    by_cases hhit : isHit d name x = true
    · rw [List.find?_cons_of_pos hhit] at h
      obtain rfl := Option.some.inj h
      exact List.find?_cons_of_pos ((hother x List.mem_cons_self hne).trans hhit)
    · rw [List.find?_cons_of_neg hhit] at h
      rw [List.find?_cons_of_neg ?_, hrest h]
      by_cases hx : x = slot
      · rw [hx, hskip]
        decide
      · rw [hother x List.mem_cons_self hx]
        exact hhit

theorem find_gone (hother : ∀ x ∈ slots, x ≠ slot → isHit d' name x = isHit d name x)
    (hskip : isHit d' name slot = false) (honly : ∀ x ∈ slots, isHit d name x = true → x = slot) :
    slots.find? (isHit d' name) = none := by
  refine List.find?_eq_none.mpr fun x hx hhit => ?_
  by_cases hne : x = slot
  · rw [hne, hskip] at hhit
    cases hhit
  · rw [hother x hx hne] at hhit
    exact hne (honly x hx hhit)

end Changed

def deleteSlot (d : Disk) (slot : DirectorySlot) : Disk := putSlot d slot ((entryAt d slot).setByte 0 0xE5)

theorem takeWhile_congr {α : Type} {p q : α → Bool} {xs : List α} (h : ∀ x ∈ xs, p x = q x) :
    xs.takeWhile p = xs.takeWhile q := by
  induction xs with
  | nil => rfl
  | cons x xs ih =>
    rw [List.takeWhile_cons, List.takeWhile_cons, h x List.mem_cons_self,
      ih fun y hy => h y (List.mem_cons_of_mem x hy)]

section Deleted
variable {g : BpbGeometry} {n : Nat} (hg : g.Sound n) {d : Disk} {c : Nat} {l : List Nat} {slot : DirectorySlot}
  (hl : Chain g d c l) (hslot : slot ∈ usedSlots g d c)
include hg hl hslot

omit hg in
theorem used_dirSlots : slot ∈ dirSlots g l := by
  rw [usedSlots_chain hl] at hslot
  exact (mem_inUse hslot).1

theorem chain_putSlot (e : Entry) {c' : Nat} {l' : List Nat} (hl' : Chain g d c' l') :
    Chain g (putSlot d slot e) c' l' :=
  hl'.congr fun x _ => link_update hg (slot_lba hg hl.valid (used_dirSlots hl hslot)) x

theorem chain_deleteSlot {c' : Nat} {l' : List Nat} (hl' : Chain g d c' l') : Chain g (deleteSlot d slot) c' l' :=
  chain_putSlot hg hl hslot _ hl'

omit hg in
theorem entryAt_deleteSlot : entryAt (deleteSlot d slot) slot = (entryAt d slot).setByte 0 0xE5 :=
  entryAt_putSlot_self (aligned_of_mem (used_dirSlots hl hslot)) _

omit hg in
theorem deleted_hit (name : ShortName) : isHit (deleteSlot d slot) name slot = false := by
  have hbyte : (entryAt (deleteSlot d slot) slot).byte 0 = 0xE5 := by
    rw [entryAt_deleteSlot hl hslot]
    rfl
  unfold isHit liveShortEntry
  rw [hbyte]
  simp

theorem deleted_slots : usedSlots g (deleteSlot d slot) c = usedSlots g d c ∧
    ∀ x ∈ usedSlots g d c, x ≠ slot → entryAt (deleteSlot d slot) x = entryAt d x := by
  have hmem := used_dirSlots hl hslot
  have hother : ∀ x ∈ dirSlots g l, x ≠ slot → entryAt (deleteSlot d slot) x = entryAt d x :=
    fun x hx hne => entryAt_putSlot_ne (aligned_of_mem hmem) (aligned_of_mem hx) hne _
  have hused : ∀ x ∈ dirSlots g l, slotUsed (deleteSlot d slot) x = slotUsed d x := by
    intro x hx
    by_cases hne : x = slot
    · subst hne
      have hbefore : slotUsed d x = true := by
        rw [usedSlots_chain hl] at hslot
        exact (mem_inUse hslot).2
      rw [hbefore]
      unfold slotUsed
      rw [entryAt_deleteSlot hl hslot]
      rfl
    · exact slotUsed_congr (hother x hx hne)
  constructor
  · rw [usedSlots_chain hl, usedSlots_chain (chain_deleteSlot hg hl hslot hl)]
    exact takeWhile_congr hused
  · intro x hx hne
    exact hother x (used_dirSlots hl hx) hne

theorem lookup_deleted {name : ShortName} :
    (∀ s, lookup g d c name = some s → s ≠ slot → lookup g (deleteSlot d slot) c name = some s) ∧
    ((∀ x ∈ usedSlots g d c, isHit d name x = true → x = slot) → lookup g (deleteSlot d slot) c name = none) := by
  obtain ⟨hslots, hentries⟩ := deleted_slots hg hl hslot
  have hother : ∀ x ∈ usedSlots g d c, x ≠ slot → isHit (deleteSlot d slot) name x = isHit d name x :=
    fun x hx hne => isHit_congr (hentries x hx hne)
  unfold lookup
  rw [hslots]
  exact ⟨fun s hs hne => find_skip hother (deleted_hit hl hslot name) hs hne,
    find_gone hother (deleted_hit hl hslot name)⟩

end Deleted

end Linux95.Fat32
