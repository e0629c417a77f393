import Linux95.Fat32.EntryEdits
import Linux95.Fat32.NewEntries

/-! The edits that the operations make: a slot is prepared, and an entry is put into it, marked deleted or
written anew. -/

namespace Linux95.Fat32
open Base Storage Write

section Prepared
variable {g : BpbGeometry} {n : Nat} (hg : g.Sound n) {d d' : Disk} {p c tail fresh : Nat} {chain chain' l : List Nat}
  {slot : DirectorySlot} {loose : List Nat} {o : Option DirectorySlot}

def growth (fresh : Nat) : List Nat := if fresh = 0 then [] else [fresh]

theorem Prepared.grows (h : Prepared g d p chain tail slot fresh d' chain') :
    chain' = chain ++ growth fresh ∧ ∀ x ∈ growth fresh, Free g d x := by
  unfold growth
  rcases h.change with ⟨hzero, hsame, -⟩ | ⟨hfresh, hgrown, -⟩
  · rw [if_pos hzero, List.append_nil]
    exact ⟨hsame, fun x hx => absurd hx List.not_mem_nil⟩
  · have hne : fresh ≠ 0 := by
      have hvalid := validCluster_iff.mp hfresh.1
      omega
    rw [if_neg hne]
    refine ⟨hgrown, fun x hx => ?_⟩
    rw [List.mem_singleton.mp hx]
    exact hfresh

include hg

theorem Prepared.agree (h : Prepared g d p chain tail slot fresh d' chain') (hchain : Chain g d p chain)
    (hagree : ∀ x, validCluster g x = true → Agree g d x) : ∀ x, validCluster g x = true → Agree g d' x := by
  have hupdate : ∀ (lba : Nat) (s : Sector), g.firstDataLba ≤ lba → ∀ x, validCluster g x = true →
      Agree g (Function.update d lba s) x := by
    intro lba s hlba x hx k hk
    rw [fatEntry_update hg hlba hx hk, fatEntry_update hg hlba hx hg.fatCountPos]
    exact hagree x hx k hk
  rcases h.change with ⟨-, -, rfl | ⟨marker, hmarker, rfl⟩⟩ | ⟨hfresh, -, -, htail, rfl⟩
  · exact hagree
  · exact hupdate _ _ (slot_lba hg hchain.valid hmarker)
  · intro x hx
    have hfill := agree_fillSectors hg hfresh.1 (s := Sector.zero) g.sectorsPerCluster hagree
    by_cases hgrow : x = tail ∨ x = fresh
    · obtain ⟨v, hv, hlt⟩ : ∃ v, (∀ k, Patch.grow tail fresh k x = some v) ∧ v < 2 ^ 28 := by
        have hlow := valid_lt hg hfresh.1
        by_cases hx' : x = tail
        · exact ⟨fresh, fun k => if_pos hx', by omega⟩
        · exact ⟨endMark, fun k => (if_neg hx').trans (if_pos (hgrow.resolve_left hx')), by decide⟩
      intro k hk
      unfold grown
      rw [fat28_patchFat hg hx hk hlt (hv k), fat28_patchFat hg hx hg.fatCountPos hlt (hv 0)]
    · obtain ⟨htail, hne⟩ := not_or.mp hgrow
      exact (agree_patchFat hg hx fun _ _ => (if_neg htail).trans (if_neg hne)).mpr (hfill x hx)

variable (hd : Owned g d loose) (hp : Directory g d p) (hchain : Chain g d p chain)
include hd hp hchain

omit hg in
theorem Prepared.elsewhere (h : Prepared g d p chain tail slot fresh d' chain') (ho : Object g d o c) (hne : c ≠ p)
    (hl : Chain g d c l) : List.Disjoint l chain' := by
  obtain ⟨hgrows, hfresh⟩ := h.grows
  obtain ⟨o', ho'⟩ := hp.object
  intro x hx hx'
  rw [hgrows] at hx'
  rcases List.mem_append.mp hx' with hx' | hx'
  · refine hd.disjoint o o' c p l chain ho ho' (fun heq => ?_) hl hchain hx hx'
    subst heq
    exact hne (ho.unique ho')
  · exact hl.linked_ne x hx (hfresh x hx').unlinked

omit hg in
theorem Prepared.loose_apart (h : Prepared g d p chain tail slot fresh d' chain') : List.Disjoint loose chain' := by
  obtain ⟨hgrows, hfresh⟩ := h.grows
  obtain ⟨o', ho'⟩ := hp.object
  intro x hx hx'
  rw [hgrows] at hx'
  rcases List.mem_append.mp hx' with hx' | hx'
  · exact hd.apart o' p chain ho' hchain hx' hx
  · have hbusy := (hd.busy x hx).2
    rw [(hfresh x hx').2] at hbusy
    cases hbusy

theorem Prepared.alike (h : Prepared g d p chain tail slot fresh d' chain') (hc : Directory g d c) : Alike g d d' c := by
  by_cases hne : c = p
  · subst hne
    exact alike_of_slots hchain h.linked h.same
  · obtain ⟨l, hl⟩ := hd.directories c hc
    obtain ⟨o, ho⟩ := hc.object
    exact (h.untouched hg).alike hg h.linked.valid hl (h.elsewhere hd hp hchain ho hne hl)

omit hd hp in
theorem Prepared.used (h : Prepared g d p chain tail slot fresh d' chain') {x : Nat} (hx : validCluster g x = true) :
    (Used g d' x → Used g d x ∨ x ∈ growth fresh) ∧ (isFree g d x = false → isFree g d' x = false) := by
  by_cases hmem : x ∈ chain'
  · have hused := used_of_link (h.linked.linked_ne x hmem)
    refine ⟨fun _ => ?_, fun _ => hused.1⟩
    rw [h.grows.1] at hmem
    exact (List.mem_append.mp hmem).imp (fun hmem => used_of_link (hchain.linked_ne x hmem)) id
  · have hentry := (h.untouched hg).entries 0 x hg.fatCountPos hx hmem
    unfold Used isFree
    rw [hentry]
    exact ⟨Or.inl, id⟩

theorem Prepared.edited (h : Prepared g d p chain tail slot fresh d' chain') :
    Edited g d d' p none none (growth fresh) := by
  have halike : ∀ c, Directory g d c → Alike g d d' c := fun c hc => h.alike hg hd hp hchain hc
  constructor
  case edit =>
    constructor
    case root => rfl
    case found => exact directory_iff.mp hp
    case slots =>
      intro c hc s
      rw [show (s ∈ (forest g d').slots c) = (s ∈ objectSlots g d' c) from rfl,
        (objectSlots_alike (halike c (directory_iff.mpr hc))).1]
      exact ⟨fun hs => Or.inl ⟨hs, nofun⟩, fun hs => (hs.resolve_right fun hs => nomatch hs.2).1⟩
    case kept =>
      intro c hc s hs _
      have hentry := (objectSlots_alike (halike c (directory_iff.mpr hc))).2 s hs
      unfold forest
      dsimp only
      rw [hentry]
      exact ⟨Iff.rfl, rfl⟩
    case taken => exact fun s hs => nomatch hs
    case given => exact fun s hs => nomatch hs
  case entries => exact fun c s hc hs _ => (objectSlots_alike (halike c hc)).2 s hs
  case place => exact (directory_alike halike).mpr hp
  case agree => exact h.agree hg hchain hd.agree
  case chains =>
    intro o c l ho hl
    split_ifs with hne
    · subst hne
      rw [hl.unique hchain, ← h.grows.1]
      exact h.linked
    · exact ((h.untouched hg).chain hg h.linked.valid hl (h.elsewhere hd hp hchain ho hne hl)).1
  case data =>
    exact fun o c l ho hne hl => ((h.untouched hg).chain hg h.linked.valid hl (h.elsewhere hd hp hchain ho hne hl)).2
  case used => exact fun x hx => (h.used hg hchain hx).1
  case busy => exact fun x hx => (h.used hg hchain hx).2
  case fresh => exact h.grows.2

theorem Prepared.owned (h : Prepared g d p chain tail slot fresh d' chain') : Owned g d' loose := by
  have ht : Transfer g d d' p none none loose loose [] [] := by
    constructor
    case given => exact fun s hs => nomatch hs
    case nothing => exact fun _ => rfl
    case taken => exact fun s hs => nomatch hs
    case none => exact fun _ => rfl
    case distinct => exact fun s _ hs => nomatch hs
    case passed =>
      exact fun x => ⟨fun hx => Or.inl (hx.resolve_left List.not_mem_nil), fun hx => Or.inr (hx.resolve_right List.not_mem_nil)⟩
    case disjoint => exact List.disjoint_nil_left _
  exact (h.edited hg hd hp hchain).owned hd ht

theorem Prepared.loose_kept (h : Prepared g d p chain tail slot fresh d' chain') {first : Nat} (hl : Holds g d first loose) :
    Holds g d' first loose ∧ ∀ x ∈ loose, ∀ i, i < g.sectorsPerCluster → d' (g.dataLba x i) = d (g.dataLba x i) := by
  -- a loose chain and its contents are still there
  rcases hl with ⟨hzero, rfl⟩ | hl
  · exact ⟨Or.inl ⟨hzero, rfl⟩, fun x hx => absurd hx List.not_mem_nil⟩
  · obtain ⟨hl', hdata⟩ := (h.untouched hg).chain hg h.linked.valid hl (h.loose_apart hd hp hchain)
    exact ⟨Or.inr hl', hdata⟩

end Prepared

def Open (g : BpbGeometry) (d : Disk) (p : Nat) (l : List Nat) (slot : DirectorySlot) : Prop :=
  Vacant d (dirSlots g l) slot ∨ slot ∈ usedSlots g d p

section Put
variable {g : BpbGeometry} {n : Nat} (hg : g.Sound n) {d : Disk} {p c : Nat} {lp l : List Nat} {slot : DirectorySlot} {e : Entry}
  {loose : List Nat} {o : Option DirectorySlot} {gone new : Option DirectorySlot}

theorem Open.mem (hchain : Chain g d p lp) (h : Open g d p lp slot) : slot ∈ dirSlots g lp := by
  rcases h with ⟨pre, post, hslots, -⟩ | hused
  · rw [hslots]
    exact List.mem_append_right _ List.mem_cons_self
  · exact used_dirSlots hchain hused

include hg

theorem put_chain (hchain : Chain g d p lp) (h : Open g d p lp slot) (hl : Chain g d c l) : Chain g (putSlot d slot e) c l :=
  hl.congr fun x _ => link_update hg (slot_lba hg hchain.valid (h.mem hchain)) x

theorem put_used (hchain : Chain g d p lp) (h : Open g d p lp slot) (he : e.byte 0 ≠ 0) :
    (∀ x, x ∈ usedSlots g (putSlot d slot e) p ↔ x ∈ usedSlots g d p ∨ x = slot) ∧
      ∀ x ∈ usedSlots g d p, x ≠ slot → entryAt (putSlot d slot e) x = entryAt d x := by
  have hmem := h.mem hchain
  have hchain' := put_chain hg hchain h hchain (e := e)
  have hother : ∀ x ∈ dirSlots g lp, x ≠ slot → entryAt (putSlot d slot e) x = entryAt d x :=
    fun x hx hne => entryAt_putSlot_ne (aligned_of_mem hmem) (aligned_of_mem hx) hne e
  refine ⟨fun x => ?_, fun x hx => hother x (used_dirSlots hchain hx)⟩
  rcases h with hvacant | hused
  · obtain ⟨pre, post, hbefore, hafter, -, -⟩ :=
      hvacant.put (fun _ hx => aligned_of_mem hx) (dirSlots_nodup hchain.valid hchain.nodup) he
    rw [usedSlots_chain hchain, usedSlots_chain hchain', hafter]
    rcases hbefore with hbefore | ⟨hbefore, -⟩
    · rw [hbefore, List.mem_append, List.mem_append, List.mem_cons]
      tauto
    · rw [hbefore, List.mem_append, List.mem_cons]
      tauto
  · have hstill : ∀ x ∈ dirSlots g lp, slotUsed (putSlot d slot e) x = slotUsed d x := by
      intro x hx
      by_cases hne : x = slot
      · subst hne
        rw [usedSlots_chain hchain] at hused
        rw [(mem_inUse hused).2]
        unfold slotUsed
        rw [entryAt_putSlot_self (aligned_of_mem hmem)]
        exact decide_eq_true he
      · exact slotUsed_congr (hother x hx hne)
    have hsame : usedSlots g (putSlot d slot e) p = usedSlots g d p := by
      rw [usedSlots_chain hchain, usedSlots_chain hchain']
      exact takeWhile_congr hstill
    rw [hsame]
    refine ⟨Or.inl, ?_⟩
    rintro (hx | rfl)
    · exact hx
    · exact hused

theorem put_objects (hchain : Chain g d p lp) (h : Open g d p lp slot) (he : e.byte 0 ≠ 0) {x : DirectorySlot} :
    x ∈ objectSlots g (putSlot d slot e) p ↔ x ∈ objectSlots g d p ∧ x ≠ slot ∨ x = slot ∧ ordinary e = true := by
  obtain ⟨hused, hentries⟩ := put_used hg hchain h he
  have hself : entryAt (putSlot d slot e) slot = e := entryAt_putSlot_self (aligned_of_mem (h.mem hchain)) e
  unfold objectSlots
  rw [List.mem_filter, List.mem_filter, hused]
  by_cases hx : x = slot
  · subst hx
    rw [hself]
    tauto
  · constructor
    · rintro ⟨hmem, hordinary⟩
      have hmem := hmem.resolve_right hx
      rw [hentries x hmem hx] at hordinary
      exact Or.inl ⟨⟨hmem, hordinary⟩, hx⟩
    · rintro (⟨⟨hmem, hordinary⟩, -⟩ | ⟨heq, -⟩)
      · rw [hentries x hmem hx]
        exact ⟨Or.inl hmem, hordinary⟩
      · exact absurd heq hx

variable (hd : Owned g d loose) (hp : Directory g d p) (hchain : Chain g d p lp) (h : Open g d p lp slot)
include hd hp hchain h

omit hg h in
theorem Owned.elsewhere (ho : Object g d o c) (hne : c ≠ p) (hl : Chain g d c l) : List.Disjoint l lp := by
  obtain ⟨o', ho'⟩ := hp.object
  refine hd.disjoint o o' c p l lp ho ho' ?_ hl hchain
  rintro rfl
  exact hne (ho.unique ho')

omit h in
theorem put_loose (h : Open g d p lp slot) (hl : Chain g d c loose) :
    Chain g (putSlot d slot e) c loose ∧
      ∀ x ∈ loose, ∀ i, i < g.sectorsPerCluster → putSlot d slot e (g.dataLba x i) = d (g.dataLba x i) := by
  obtain ⟨o, ho⟩ := hp.object
  exact (untouched_update hg hchain.valid (h.mem hchain)).chain hg hchain.valid hl (hd.apart o p lp ho hchain).symm

theorem put_alike (hc : Directory g d c) (hne : c ≠ p) : Alike g d (putSlot d slot e) c := by
  obtain ⟨l, hl⟩ := hd.directories c hc
  obtain ⟨o, ho⟩ := hc.object
  exact (untouched_update hg hchain.valid (h.mem hchain)).alike hg hchain.valid hl (hd.elsewhere hp hchain ho hne hl)

omit hg in
theorem put_apart (hc : Directory g d c) (hne : c ≠ p) : slot ∉ usedSlots g d c := by
  intro hslot
  obtain ⟨l, hl⟩ := hd.directories c hc
  obtain ⟨o, ho⟩ := hc.object
  obtain ⟨x, hx, i, j, hi, -, rfl⟩ := mem_dirSlots.mp (h.mem hchain)
  obtain ⟨x', hx', i', j', hi', -, heq⟩ := mem_dirSlots.mp (used_dirSlots hl hslot)
  have hsame := (dataLba_inj (hchain.valid x hx) (hl.valid x' hx') hi hi' (congrArg DirectorySlot.lba heq)).1
  rw [← hsame] at hx'
  exact hd.elsewhere hp hchain ho hne hl hx' hx

variable (he : e.byte 0 ≠ 0) (hgone : ∀ s, gone = some s ↔ s = slot ∧ slot ∈ objectSlots g d p)
include he hgone

theorem put_entries (hc : Directory g d c) {s : DirectorySlot} (hs : s ∈ objectSlots g d c) (hkept : gone ≠ some s) :
    entryAt (putSlot d slot e) s = entryAt d s := by
  by_cases hne : c = p
  · subst hne
    refine (put_used hg hchain h he).2 s (List.mem_of_mem_filter hs) ?_
    rintro rfl
    exact hkept ((hgone s).mpr ⟨rfl, hs⟩)
  · exact (put_alike hg hd hp hchain h hc hne).entries s (List.mem_of_mem_filter hs)

variable (hnew : ∀ s, new = some s ↔ s = slot ∧ ordinary e = true)
include hnew

theorem put_slots (hc : Directory g d c) (s : DirectorySlot) : s ∈ objectSlots g (putSlot d slot e) c ↔
    s ∈ objectSlots g d c ∧ gone ≠ some s ∨ c = p ∧ new = some s := by
  by_cases hne : c = p
  · subst hne
    rw [put_objects hg hchain h he, hnew]
    constructor
    · rintro (⟨hs, hslot⟩ | hs)
      · exact Or.inl ⟨hs, fun heq => hslot ((hgone s).mp heq).1⟩
      · exact Or.inr ⟨rfl, hs⟩
    · rintro (⟨hs, hkept⟩ | ⟨-, hs⟩)
      · refine Or.inl ⟨hs, ?_⟩
        rintro rfl
        exact hkept ((hgone s).mpr ⟨rfl, hs⟩)
      · exact Or.inr hs
  · rw [(objectSlots_alike (put_alike hg hd hp hchain h hc hne)).1]
    constructor
    · intro hs
      refine Or.inl ⟨hs, fun heq => ?_⟩
      rw [((hgone s).mp heq).1] at hs
      exact put_apart hd hp hchain h hc hne (List.mem_of_mem_filter hs)
    · rintro (⟨hs, -⟩ | ⟨heq, -⟩)
      · exact hs
      · exact absurd heq hne

variable (htaken : ordinary e = true → isDirectoryEntry e = true →
    Directory g d (firstCluster e) ∨ objectSlots g (putSlot d slot e) (firstCluster e) = [])
  (hgiven : slot ∈ objectSlots g d p → isDirectoryEntry (entryAt d slot) = true →
    ordinary e = true ∧ isDirectoryEntry e = true ∧ firstCluster e = firstCluster (entryAt d slot) ∨
      objectSlots g d (firstCluster (entryAt d slot)) = [])
include htaken hgiven

theorem put_edit : (forest g d).Edit (forest g (putSlot d slot e)) p gone new := by
  have hself : entryAt (putSlot d slot e) slot = e := entryAt_putSlot_self (aligned_of_mem (h.mem hchain)) e
  constructor
  case root => rfl
  case found => exact directory_iff.mp hp
  case slots => exact fun c hc => put_slots hg hd hp hchain h he hgone hnew (directory_iff.mpr hc)
  case kept =>
    intro c hc s hs hkept
    have hentry := put_entries hg hd hp hchain h he hgone (directory_iff.mpr hc) hs hkept
    unfold forest
    dsimp only
    rw [hentry]
    exact ⟨Iff.rfl, rfl⟩
  case taken =>
    intro s hs hleads
    obtain ⟨rfl, hordinary⟩ := (hnew s).mp hs
    have hleads : isDirectoryEntry (entryAt (putSlot d s e) s) = true := hleads
    show (forest g d).Node (firstCluster (entryAt (putSlot d s e) s)) ∨
      { x | x ∈ objectSlots g (putSlot d s e) (firstCluster (entryAt (putSlot d s e) s)) } = ∅
    rw [hself] at hleads ⊢
    refine (htaken hordinary hleads).imp directory_iff.mp fun hempty => ?_
    rw [hempty]
    exact Set.eq_empty_of_forall_notMem fun x hx => List.not_mem_nil hx
  case given =>
    intro s hs hleads
    obtain ⟨rfl, hslot⟩ := (hgone s).mp hs
    rcases hgiven hslot hleads with ⟨hordinary, hdirectory, hfirst⟩ | hempty
    · refine Or.inl ⟨s, (hnew s).mpr ⟨rfl, hordinary⟩, ?_, ?_, fun c hc hs' => ?_⟩
      · show isDirectoryEntry (entryAt (putSlot d s e) s) = true
        rw [hself]
        exact hdirectory
      · show firstCluster (entryAt (putSlot d s e) s) = firstCluster (entryAt d s)
        rw [hself]
        exact hfirst
      · by_contra hne
        exact put_apart hd hp hchain h (directory_iff.mpr hc) hne (List.mem_of_mem_filter hs')
    · right
      show { x | x ∈ objectSlots g d (firstCluster (entryAt d s)) } = ∅
      rw [hempty]
      exact Set.eq_empty_of_forall_notMem fun x hx => List.not_mem_nil hx

theorem Owned.put_edited : Edited g d (putSlot d slot e) p gone new [] := by
  have hedit := put_edit hg hd hp hchain h he hgone hnew htaken hgiven
  have hmem := h.mem hchain
  have hlba := slot_lba hg hchain.valid hmem
  have hfat : ∀ {x k : Nat}, validCluster g x = true → k < g.fatCount →
      fatEntry g (putSlot d slot e) k x = fatEntry g d k x := fun hx hk => fatEntry_update hg hlba hx hk
  constructor
  case edit => exact hedit
  case entries => exact fun c s hc hs hkept => put_entries hg hd hp hchain h he hgone hc hs hkept
  case place =>
    rcases hedit.after (directory_iff.mp hp) with hstill | ⟨s, hs, -, -, hempty⟩
    · exact directory_iff.mpr hstill
    · have hin : slot ∈ (forest g d).slots p := ((hgone s).mp hs).2
      rw [hempty] at hin
      cases hin
  case agree =>
    intro x hx k hk
    rw [hfat hx hk, hfat hx hg.fatCountPos]
    exact hd.agree x hx k hk
  case chains =>
    intro o c l _ hl
    rw [List.append_nil, ite_self]
    exact put_chain hg hchain h hl
  case data =>
    intro o c l ho hne hl x hx i hi
    exact ((untouched_update hg hchain.valid hmem).chain hg hchain.valid hl (hd.elsewhere hp hchain ho hne hl)).2 x hx i hi
  case used =>
    intro x hx hused
    unfold Used isFree at hused ⊢
    rw [hfat hx hg.fatCountPos] at hused
    exact Or.inl hused
  case busy =>
    intro x hx hbusy
    unfold isFree at hbusy ⊢
    rw [hfat hx hg.fatCountPos]
    exact hbusy
  case fresh => exact fun x hx => absurd hx List.not_mem_nil

end Put

end Linux95.Fat32
