import Linux95.Fat32.Ownership

/-! One entry less, one entry more: what becomes of a sound volume when the entries of its directories are
edited and the clusters change their owner with them. -/

namespace Linux95.Fat32
open Base Storage Write

def Holds (g : BpbGeometry) (d : Disk) (c : Nat) (l : List Nat) : Prop := c = 0 ∧ l = [] ∨ Chain g d c l

/-- The entry `gone` is given up and the entry `new` is put into the directory `p`, which grows by `grow`. -/
structure Edited (g : BpbGeometry) (d d' : Disk) (p : Nat) (gone new : Option DirectorySlot) (grow : List Nat) : Prop where
  edit : (forest g d).Edit (forest g d') p gone new
  entries : ∀ c slot, Directory g d c → slot ∈ objectSlots g d c → gone ≠ some slot → entryAt d' slot = entryAt d slot
  place : Directory g d' p
  agree : ∀ x, validCluster g x = true → Agree g d' x
  chains : ∀ o c l, Object g d o c → Chain g d c l → Chain g d' c (if c = p then l ++ grow else l)
  data : ∀ o c l, Object g d o c → c ≠ p → Chain g d c l →
    ∀ x ∈ l, ∀ i, i < g.sectorsPerCluster → d' (g.dataLba x i) = d (g.dataLba x i)
  used : ∀ x, validCluster g x = true → Used g d' x → Used g d x ∨ x ∈ grow
  busy : ∀ x, validCluster g x = true → isFree g d x = false → isFree g d' x = false
  fresh : ∀ x ∈ grow, Free g d x

structure Stands (g : BpbGeometry) (d : Disk) (e : Entry) (held : List Nat) : Prop where
  holds : Holds g d (firstCluster e) held
  directory : isDirectoryEntry e = true → firstCluster e ≠ 0
  file : isDirectoryEntry e = false → (firstCluster e = 0 ↔ le32 e.byte 28 = 0) ∧
    (firstCluster e ≠ 0 → held.length = fileClusters g (le32 e.byte 28))
  encoded : (∃ text, encodeShortName text = some e.name) ∧ storedCluster e = firstCluster e

structure Transfer (g : BpbGeometry) (d d' : Disk) (p : Nat) (gone new : Option DirectorySlot)
    (loose loose' released held : List Nat) : Prop where
  given : ∀ s, gone = some s → ∃ c, Directory g d c ∧ s ∈ objectSlots g d c ∧ Holds g d (firstCluster (entryAt d s)) released
  nothing : gone = none → released = []
  taken : ∀ s, new = some s → Stands g d' (entryAt d' s) held
  none : new = none → held = []
  distinct : ∀ s slot, new = some s → slot ∈ objectSlots g d p → gone ≠ some slot →
    (entryAt d' s).name ≠ (entryAt d slot).name
  passed : ∀ x, x ∈ held ∨ x ∈ loose' ↔ x ∈ loose ∨ x ∈ released
  disjoint : List.Disjoint held loose'

section Edited
variable {g : BpbGeometry} {d d' : Disk} {p c : Nat} {gone new o : Option DirectorySlot}
  {grow loose loose' released held l : List Nat} {slot : DirectorySlot}

theorem Holds.chain (h : Holds g d c l) (hc : c ≠ 0) : Chain g d c l := h.resolve_left fun hzero => hc hzero.1

theorem Holds.eq {l' : List Nat} (h : Holds g d c l) (hl' : Chain g d c l') : l = l' := (h.chain hl'.first_ne).unique hl'

theorem Directory.object_leads (h : Directory g d c) :
    ∃ o, Object g d o c ∧ ∀ s, o = some s → isDirectoryEntry (entryAt d s) = true := by
  cases h with
  | root => exact ⟨none, .root, fun s hs => nomatch hs⟩
  | @child p s parent mem directory =>
    refine ⟨some s, .entry parent mem, fun s' hs' => ?_⟩
    rw [← Option.some.inj hs']
    exact directory

variable (hd : Owned g d loose) (h : Edited g d d' p gone new grow)
include h

theorem Edited.directory (hc : Directory g d' c) : Directory g d c ∨ ∃ s, new = some s ∧
    isDirectoryEntry (entryAt d' s) = true ∧ c = firstCluster (entryAt d' s) ∧ objectSlots g d' c = [] := by
  rcases h.edit.before (directory_iff.mp hc) with hold | ⟨s, hnew, hleads, htarget, hempty⟩
  · exact Or.inl (directory_iff.mpr hold)
  · refine Or.inr ⟨s, hnew, hleads, htarget, List.eq_nil_iff_forall_not_mem.mpr fun x hx => ?_⟩
    have hmem : x ∈ (forest g d').slots c := hx
    rw [hempty] at hmem
    cases hmem

theorem Edited.slot_cases (hc : Directory g d' c) (hslot : slot ∈ objectSlots g d' c) : Directory g d c ∧
    (slot ∈ objectSlots g d c ∧ gone ≠ some slot ∧ entryAt d' slot = entryAt d slot ∨ c = p ∧ new = some slot) := by
  obtain ⟨hnode, hcases⟩ := h.edit.slot (directory_iff.mp hc) hslot
  have hold := directory_iff.mpr hnode
  exact ⟨hold, hcases.imp (fun ⟨hmem, hgone⟩ => ⟨hmem, hgone, h.entries c slot hold hmem hgone⟩) id⟩

theorem Edited.object (ho : Object g d' o c) :
    Object g d o c ∧ (∀ s, o = some s → gone ≠ some s) ∨
      ∃ s, o = some s ∧ new = some s ∧ c = firstCluster (entryAt d' s) :=
  (h.edit.object_before (object_iff.mp ho)).imp (fun ⟨ho, hgone⟩ => ⟨object_iff.mpr ho, hgone⟩) id

theorem Edited.object_after (ho : Object g d o c) (hgone : ∀ s, o = some s → gone ≠ some s) : Object g d' o c :=
  object_iff.mpr (h.edit.object_after (object_iff.mp ho) hgone)

include hd

theorem Edited.chain_kept (ho : Object g d o c) (hl : Chain g d' c l) : ∃ l₀, Chain g d c l₀ ∧
    l = (if c = p then l₀ ++ grow else l₀) ∧ ∀ x ∈ l, x ∈ l₀ ∨ c = p ∧ x ∈ grow := by
  obtain ⟨l₀, hl₀⟩ := hd.chain ho hl.first_ne
  have heq := hl.unique (h.chains o c l₀ ho hl₀)
  refine ⟨l₀, hl₀, heq, fun x hx => ?_⟩
  rw [heq] at hx
  split_ifs at hx with hp
  · exact (List.mem_append.mp hx).imp id fun hx => ⟨hp, hx⟩
  · exact Or.inl hx

omit hd in
theorem Edited.fresh_unlinked {x : Nat} (hx : x ∈ grow) (hl : Chain g d c l) : x ∉ l :=
  fun hmem => hl.linked_ne x hmem (h.fresh x hx).unlinked

theorem Edited.file_elsewhere (hc : Directory g d c) (hslot : slot ∈ objectSlots g d c)
    (hfile : isDirectoryEntry (entryAt d slot) = false) (hl : Chain g d (firstCluster (entryAt d slot)) l) :
    firstCluster (entryAt d slot) ≠ p := by
  intro heq
  obtain ⟨o, ho, hleads⟩ := (directory_iff.mpr h.edit.found).object_leads
  rw [heq] at hl
  refine hd.disjoint o (some slot) p p l l ho (heq ▸ .entry hc hslot) (fun hsame => ?_) hl hl hl.head_mem hl.head_mem
  rw [hleads slot hsame] at hfile
  cases hfile

variable (ht : Transfer g d d' p gone new loose loose' released held)
include ht

theorem Edited.passed_apart (ho : Object g d o c) (hgone : ∀ s, o = some s → gone ≠ some s) (hl : Chain g d' c l)
    {x : Nat} (hx : x ∈ l) (hpassed : x ∈ loose ∨ x ∈ released) : False := by
  -- the clusters that change their owner are those of no object that stays
  obtain ⟨l₀, hl₀, -, hmem⟩ := h.chain_kept hd ho hl
  rcases hmem x hx with hx | ⟨-, hx⟩
  · rcases hpassed with hloose | hreleased
    · exact hd.apart o c l₀ ho hl₀ hx hloose
    · cases hcase : gone with
      | none =>
        rw [ht.nothing hcase] at hreleased
        cases hreleased
      | some s =>
        obtain ⟨c', hc', hs, hholds⟩ := ht.given s hcase
        rcases hholds with ⟨-, hnil⟩ | hchain
        · rw [hnil] at hreleased
          cases hreleased
        · exact hd.disjoint o (some s) c _ l₀ released ho (.entry hc' hs) (fun heq => hgone s heq hcase) hl₀ hchain hx hreleased
  · have hfree := (h.fresh x hx).2
    rcases hpassed with hloose | hreleased
    · rw [(hd.busy x hloose).2] at hfree
      cases hfree
    · cases hcase : gone with
      | none =>
        rw [ht.nothing hcase] at hreleased
        cases hreleased
      | some s =>
        obtain ⟨c', hc', hs, hholds⟩ := ht.given s hcase
        rcases hholds with ⟨-, hnil⟩ | hchain
        · rw [hnil] at hreleased
          cases hreleased
        · exact h.fresh_unlinked hx hchain hreleased

omit hd h in
theorem Transfer.chain_new {s : DirectorySlot} (hnew : new = some s) (hl : Chain g d' (firstCluster (entryAt d' s)) l) :
    l = held := ((ht.taken s hnew).holds.eq hl).symm

theorem Edited.disjoint {o' : Option DirectorySlot} {c' : Nat} {l' : List Nat} (ho : Object g d' o c)
    (ho' : Object g d' o' c') (hne : o ≠ o') (hl : Chain g d' c l) (hl' : Chain g d' c' l') : List.Disjoint l l' := by
  intro x hx hx'
  rcases h.object ho with ⟨hold, hgone⟩ | ⟨s, rfl, hnew, rfl⟩
  · rcases h.object ho' with ⟨hold', hgone'⟩ | ⟨s, rfl, hnew, rfl⟩
    · obtain ⟨l₀, hl₀, -, hmem⟩ := h.chain_kept hd hold hl
      obtain ⟨l₁, hl₁, -, hmem'⟩ := h.chain_kept hd hold' hl'
      rcases hmem x hx with hx | ⟨rfl, hx⟩
      · rcases hmem' x hx' with hx' | ⟨-, hx'⟩
        · exact hd.disjoint o o' c c' l₀ l₁ hold hold' hne hl₀ hl₁ hx hx'
        · exact h.fresh_unlinked hx' hl₀ hx
      · rcases hmem' x hx' with hx' | ⟨rfl, -⟩
        · exact h.fresh_unlinked hx hl₁ hx'
        · exact hd.disjoint o o' _ _ l₀ l₁ hold hold' hne hl₀ hl₁ hl₀.head_mem hl₁.head_mem
    · rw [ht.chain_new hnew hl'] at hx'
      exact h.passed_apart hd ht hold hgone hl hx ((ht.passed x).mp (Or.inl hx'))
  · rw [ht.chain_new hnew hl] at hx
    rcases h.object ho' with ⟨hold', hgone'⟩ | ⟨s', rfl, hnew', rfl⟩
    · exact h.passed_apart hd ht hold' hgone' hl' hx' ((ht.passed x).mp (Or.inl hx))
    · exact hne (hnew.symm.trans hnew')

theorem Edited.owner {x : Nat} (hx : validCluster g x = true) (hused : Used g d' x) :
    x ∈ loose' ∨ ∃ o first l, Object g d' o first ∧ Chain g d' first l ∧ x ∈ l := by
  have hpassed : x ∈ loose ∨ x ∈ released → x ∈ loose' ∨ ∃ o first l, Object g d' o first ∧ Chain g d' first l ∧ x ∈ l := by
    intro hmem
    rcases (ht.passed x).mpr hmem with hheld | hloose
    · right
      cases hnew : new with
      | none =>
        rw [ht.none hnew] at hheld
        cases hheld
      | some s =>
        rcases (ht.taken s hnew).holds with ⟨-, hnil⟩ | hchain
        · rw [hnil] at hheld
          cases hheld
        · exact ⟨some s, _, held, object_iff.mpr (h.edit.object_new hnew (directory_iff.mp h.place)), hchain, hheld⟩
    · exact Or.inl hloose
  have hplace : ∃ o l, Object g d o p ∧ Chain g d p l := by
    have hp := directory_iff.mpr h.edit.found
    obtain ⟨o, ho⟩ := hp.object
    obtain ⟨l, hl⟩ := hd.directories p hp
    exact ⟨o, l, ho, hl⟩
  rcases h.used x hx hused with hold | hgrow
  · rcases hd.owned x hx hold with hloose | ⟨o, first, l, ho, hl, hmem⟩
    · exact hpassed (Or.inl hloose)
    · by_cases hgone : ∃ s, o = some s ∧ gone = some s
      · obtain ⟨s, rfl, hgone⟩ := hgone
        obtain ⟨c', hc', hs, hholds⟩ := ht.given s hgone
        refine hpassed (Or.inr ?_)
        rw [ho.unique (.entry hc' hs)] at hl
        rw [hholds.eq hl]
        exact hmem
      · refine Or.inr ⟨o, first, _, h.object_after ho fun s hs hg => hgone ⟨s, hs, hg⟩, h.chains o first l ho hl, ?_⟩
        split_ifs
        · exact List.mem_append_left _ hmem
        · exact hmem
  · obtain ⟨o, l, ho, hl⟩ := hplace
    obtain ⟨o', ho'⟩ := h.place.object
    have hl' := h.chains o p l ho hl
    rw [if_pos rfl] at hl'
    exact Or.inr ⟨o', p, _, ho', hl', List.mem_append_right _ hgrow⟩

theorem Edited.owned : Owned g d' loose' := by
  constructor
  case agree => exact h.agree
  case directories =>
    intro c hc
    rcases h.directory hc with hold | ⟨s, hnew, hdirectory, rfl, -⟩
    · obtain ⟨l, hl⟩ := hd.directories c hold
      obtain ⟨o, ho⟩ := hold.object
      exact ⟨_, h.chains o c l ho hl⟩
    · have hstands := ht.taken s hnew
      exact ⟨held, hstands.holds.chain (hstands.directory hdirectory)⟩
  case files =>
    intro c slot hc hslot hfile
    obtain ⟨hold, ⟨hmem, -, hentry⟩ | ⟨-, hnew⟩⟩ := h.slot_cases hc hslot
    · rw [hentry] at hfile ⊢
      obtain ⟨hzero, hchain⟩ := hd.files c slot hold hmem hfile
      refine ⟨hzero, fun hne => ?_⟩
      obtain ⟨l, hl, hlength⟩ := hchain hne
      have hl' := h.chains (some slot) _ l (.entry hold hmem) hl
      rw [if_neg (h.file_elsewhere hd hold hmem hfile hl)] at hl'
      exact ⟨l, hl', hlength⟩
    · have hstands := ht.taken slot hnew
      obtain ⟨hzero, hlength⟩ := hstands.file hfile
      exact ⟨hzero, fun hne => ⟨held, hstands.holds.chain hne, hlength hne⟩⟩
  case disjoint => exact fun o o' c c' l l' ho ho' hne hl hl' => h.disjoint hd ht ho ho' hne hl hl'
  case apart =>
    intro o c l ho hl x hx hloose
    rcases h.object ho with ⟨hold, hgone⟩ | ⟨s, rfl, hnew, rfl⟩
    · exact h.passed_apart hd ht hold hgone hl hx ((ht.passed x).mp (Or.inr hloose))
    · rw [ht.chain_new hnew hl] at hx
      exact ht.disjoint hx hloose
  case busy =>
    intro x hx
    have hbusy : validCluster g x = true ∧ isFree g d x = false := by
      rcases (ht.passed x).mp (Or.inr hx) with hloose | hreleased
      · exact hd.busy x hloose
      · cases hcase : gone with
        | none =>
          rw [ht.nothing hcase] at hreleased
          cases hreleased
        | some s =>
          obtain ⟨c', -, -, ⟨-, hnil⟩ | hchain⟩ := ht.given s hcase
          · rw [hnil] at hreleased
            cases hreleased
          · exact ⟨hchain.valid x hreleased, (used_of_link (hchain.linked_ne x hreleased)).1⟩
    exact ⟨hbusy.1, h.busy x hbusy.1 hbusy.2⟩
  case owned => exact fun x hx hused => h.owner hd ht hx hused
  case encoded =>
    intro c slot hc hslot
    obtain ⟨hold, ⟨hmem, -, hentry⟩ | ⟨-, hnew⟩⟩ := h.slot_cases hc hslot
    · rw [hentry]
      exact hd.encoded c slot hold hmem
    · exact (ht.taken slot hnew).encoded
  case distinct =>
    intro c slot slot' hc hslot hslot' hname
    obtain ⟨hold, ⟨hmem, hgone, hentry⟩ | ⟨hp, hnew⟩⟩ := h.slot_cases hc hslot
    · obtain ⟨-, ⟨hmem', -, hentry'⟩ | ⟨hp', hnew'⟩⟩ := h.slot_cases hc hslot'
      · rw [hentry, hentry'] at hname
        exact hd.distinct c slot slot' hold hmem hmem' hname
      · rw [hentry] at hname
        exact absurd hname.symm (ht.distinct slot' slot hnew' (hp' ▸ hmem) hgone)
    · obtain ⟨-, ⟨hmem', hgone', hentry'⟩ | ⟨-, hnew'⟩⟩ := h.slot_cases hc hslot'
      · rw [hentry'] at hname
        exact absurd hname (ht.distinct slot slot' hnew (hp ▸ hmem') hgone')
      · exact Option.some.inj (hnew.symm.trans hnew')

end Edited

end Linux95.Fat32
