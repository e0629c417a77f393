import Linux95.Base.Forests
import Linux95.Fat32.Lookalikes

/-! The volume between the steps of an operation: some clusters are in use without an owner, those of a
chain that is not published yet or not freed yet. -/

namespace Linux95.Fat32
open Base Storage Write

def forest (g : BpbGeometry) (d : Disk) : Forest Nat DirectorySlot where
  root := g.rootCluster
  slots := fun c => { slot | slot ∈ objectSlots g d c }
  leads := fun slot => isDirectoryEntry (entryAt d slot) = true
  target := fun slot => firstCluster (entryAt d slot)

def Used (g : BpbGeometry) (d : Disk) (x : Nat) : Prop :=
  isFree g d x = false ∧ classifyFatEntry (fat28 (fatEntry g d 0 x)) ≠ .bad

/-- A sound volume with the clusters of `loose` in use but without an owner. -/
structure Owned (g : BpbGeometry) (d : Disk) (loose : List Nat) : Prop where
  agree : ∀ c, validCluster g c = true → Agree g d c
  directories : ∀ c, Directory g d c → ∃ l, Chain g d c l
  files : ∀ c slot, Directory g d c → slot ∈ objectSlots g d c → isDirectoryEntry (entryAt d slot) = false →
    (firstCluster (entryAt d slot) = 0 ↔ le32 (entryAt d slot).byte 28 = 0) ∧
      (firstCluster (entryAt d slot) ≠ 0 → ∃ l, Chain g d (firstCluster (entryAt d slot)) l ∧
        l.length = fileClusters g (le32 (entryAt d slot).byte 28))
  disjoint : ∀ o o' c c' l l', Object g d o c → Object g d o' c' → o ≠ o' → Chain g d c l →
    Chain g d c' l' → List.Disjoint l l'
  apart : ∀ o c l, Object g d o c → Chain g d c l → List.Disjoint l loose
  busy : ∀ x ∈ loose, validCluster g x = true ∧ isFree g d x = false
  owned : ∀ x, validCluster g x = true → Used g d x →
    x ∈ loose ∨ ∃ o first l, Object g d o first ∧ Chain g d first l ∧ x ∈ l
  encoded : ∀ c slot, Directory g d c → slot ∈ objectSlots g d c →
    (∃ text, encodeShortName text = some (entryAt d slot).name) ∧
      storedCluster (entryAt d slot) = firstCluster (entryAt d slot)
  distinct : ∀ c slot slot', Directory g d c → slot ∈ objectSlots g d c → slot' ∈ objectSlots g d c →
    (entryAt d slot).name = (entryAt d slot').name → slot = slot'

section Forest
variable {g : BpbGeometry} {d : Disk} {c : Nat} {o : Option DirectorySlot}

theorem directory_iff : Directory g d c ↔ (forest g d).Node c := by
  constructor
  · intro h
    induction h with
    | root => exact .root
    | child _ mem directory ih => exact .child ih mem directory
  · intro h
    induction h with
    | root => exact .root
    | child _ mem leads ih => exact .child ih mem leads

theorem object_iff : Object g d o c ↔ (forest g d).Object o c := by
  constructor
  · intro h
    cases h with
    | root => exact .root
    | entry parent mem => exact .entry (directory_iff.mp parent) mem
  · intro h
    cases h with
    | root => exact .root
    | entry parent mem => exact .entry (directory_iff.mpr parent) mem

end Forest

theorem wellFormed_iff {g : BpbGeometry} {d : Disk} : WellFormed g d ↔ Owned g d [] := by
  constructor
  · intro h
    refine ⟨h.agree, h.directories, h.files, h.disjoint, fun _ _ _ _ _ => List.disjoint_nil_right _,
      fun _ hx => absurd hx List.not_mem_nil, ?_, h.encoded, h.distinct⟩
    exact fun x hx hused => Or.inr (h.owned x hx hused.1 hused.2)
  · intro h
    refine ⟨h.agree, h.directories, h.files, h.disjoint, fun x hx hfree hbad => ?_, h.encoded, h.distinct⟩
    exact (h.owned x hx ⟨hfree, hbad⟩).resolve_left List.not_mem_nil

section Chains
variable {g : BpbGeometry} {d d' : Disk} {loose loose' : List Nat} {c : Nat} {o : Option DirectorySlot} {l : List Nat}

theorem Owned.chain (h : Owned g d loose) (ho : Object g d o c) (hc : c ≠ 0) : ∃ l, Chain g d c l := by
  cases ho with
  | root => exact h.directories _ .root
  | @entry p slot parent mem =>
    cases hdirectory : isDirectoryEntry (entryAt d slot) with
    | true => exact h.directories _ (.child parent mem hdirectory)
    | false =>
      obtain ⟨l, hl, -⟩ := (h.files p slot parent mem hdirectory).2 hc
      exact ⟨l, hl⟩

theorem Chain.first_ne (h : Chain g d c l) : c ≠ 0 := by
  have hvalid := validCluster_iff.mp (h.valid c h.head_mem)
  omega

theorem used_of_link {x : Nat} (h : link g d x ≠ none) : Used g d x := by
  constructor
  · rw [← Bool.not_eq_true]
    intro hfree
    have hx : validCluster g x = true := by
      obtain ⟨r, hr⟩ := Option.ne_none_iff_exists'.mp h
      exact link_valid hr
    exact h (Free.unlinked ⟨hx, hfree⟩)
  · intro hbad
    apply h
    unfold link linkOf
    rw [hbad]
    exact ite_self none

theorem Owned.directories_apart (hd : Owned g d loose) {c' : Nat} {l' : List Nat} (h : Directory g d c)
    (h' : Directory g d c') (hne : c ≠ c') (hl : Chain g d c l) (hl' : Chain g d c' l') : List.Disjoint l l' := by
  obtain ⟨o, ho⟩ := h.object
  obtain ⟨o', ho'⟩ := h'.object
  refine hd.disjoint o o' c c' l l' ho ho' ?_ hl hl'
  rintro rfl
  exact hne (ho.unique ho')

end Chains

section Relink
variable {g : BpbGeometry} {d d' : Disk} {loose loose' : List Nat} {c : Nat} {o : Option DirectorySlot}

theorem objectSlots_alike (h : Alike g d d' c) :
    objectSlots g d' c = objectSlots g d c ∧ ∀ slot ∈ objectSlots g d c, entryAt d' slot = entryAt d slot := by
  have hentries : ∀ slot ∈ objectSlots g d c, entryAt d' slot = entryAt d slot :=
    fun slot hslot => h.entries slot (List.mem_of_mem_filter hslot)
  refine ⟨?_, hentries⟩
  unfold objectSlots
  rw [h.slots]
  exact List.filter_congr fun slot hslot => by rw [h.entries slot hslot]

theorem directory_alike (h : ∀ c, Directory g d c → Alike g d d' c) : Directory g d' c ↔ Directory g d c := by
  constructor
  · intro hc
    induction hc with
    | root => exact .root
    | @child p slot _ mem directory ih =>
      obtain ⟨hslots, hentries⟩ := objectSlots_alike (h p ih)
      rw [hslots] at mem
      rw [hentries slot mem] at directory ⊢
      exact .child ih mem directory
  · intro hc
    induction hc with
    | root => exact .root
    | @child p slot parent mem directory ih =>
      obtain ⟨hslots, hentries⟩ := objectSlots_alike (h p parent)
      rw [← hentries slot mem] at directory ⊢
      exact .child ih (hslots ▸ mem) directory

theorem object_alike (h : ∀ c, Directory g d c → Alike g d d' c) : Object g d' o c ↔ Object g d o c := by
  constructor
  · intro ho
    cases ho with
    | root => exact .root
    | @entry p slot parent mem =>
      have hparent := (directory_alike h).mp parent
      obtain ⟨hslots, hentries⟩ := objectSlots_alike (h p hparent)
      rw [hslots] at mem
      rw [hentries slot mem]
      exact .entry hparent mem
  · intro ho
    cases ho with
    | root => exact .root
    | @entry p slot parent mem =>
      obtain ⟨hslots, hentries⟩ := objectSlots_alike (h p parent)
      rw [← hentries slot mem]
      exact .entry ((directory_alike h).mpr parent) (hslots ▸ mem)

def KeepsOwned (g : BpbGeometry) (d d' : Disk) (loose : List Nat) : Prop :=
  ∀ x, x ∉ loose → link g d x ≠ none →
    link g d' x = link g d x ∧ ∀ i, i < g.sectorsPerCluster → d' (g.dataLba x i) = d (g.dataLba x i)

variable (hd : Owned g d loose) (hkeeps : KeepsOwned g d d' loose)
include hd hkeeps

theorem Owned.keeps_chain {l : List Nat} (ho : Object g d o c) (hl : Chain g d c l) :
    Chain g d' c l ∧ ∀ x ∈ l, ∀ i, i < g.sectorsPerCluster → d' (g.dataLba x i) = d (g.dataLba x i) := by
  have happart := hd.apart o c l ho hl
  exact ⟨hl.congr fun x hx => (hkeeps x (happart hx) (hl.linked_ne x hx)).1,
    fun x hx => (hkeeps x (happart hx) (hl.linked_ne x hx)).2⟩

theorem Owned.keeps_alike (hc : Directory g d c) : Alike g d d' c := by
  obtain ⟨l, hl⟩ := hd.directories c hc
  obtain ⟨o, ho⟩ := hc.object
  obtain ⟨hl', hdata⟩ := hd.keeps_chain hkeeps ho hl
  exact alike_of_sectors hl hl' hdata

theorem Owned.chain_kept {l : List Nat} (ho : Object g d o c) (hl : Chain g d' c l) : Chain g d c l := by
  obtain ⟨l₀, hl₀⟩ := hd.chain ho hl.first_ne
  rw [hl.unique (hd.keeps_chain hkeeps ho hl₀).1]
  exact hl₀

theorem Owned.relink (hagree : ∀ x, validCluster g x = true → Agree g d' x)
    (hused : ∀ x, validCluster g x = true → Used g d' x → x ∈ loose' ∨ x ∉ loose ∧ Used g d x)
    (hloose : ∀ x ∈ loose', x ∈ loose ∨ isFree g d x = true)
    (hbusy : ∀ x ∈ loose', validCluster g x = true ∧ isFree g d' x = false) : Owned g d' loose' := by
  have halike : ∀ c, Directory g d c → Alike g d d' c := fun c hc => hd.keeps_alike hkeeps hc
  have hslots : ∀ {c slot}, Directory g d' c → slot ∈ objectSlots g d' c →
      Directory g d c ∧ slot ∈ objectSlots g d c ∧ entryAt d' slot = entryAt d slot := by
    intro c slot hc hslot
    have hc' := (directory_alike halike).mp hc
    obtain ⟨hsame, hentries⟩ := objectSlots_alike (halike c hc')
    rw [hsame] at hslot
    exact ⟨hc', hslot, hentries slot hslot⟩
  constructor
  case agree => exact hagree
  case directories => exact fun c hc => (halike c ((directory_alike halike).mp hc)).linked
  case files =>
    intro c slot hc hslot hfile
    obtain ⟨hc', hslot', hentry⟩ := hslots hc hslot
    rw [hentry] at hfile ⊢
    obtain ⟨hzero, hchain⟩ := hd.files c slot hc' hslot' hfile
    refine ⟨hzero, fun hne => ?_⟩
    obtain ⟨l, hl, hlength⟩ := hchain hne
    exact ⟨l, (hd.keeps_chain hkeeps (.entry hc' hslot') hl).1, hlength⟩
  case disjoint =>
    intro o o' c c' l l' ho ho' hne hl hl'
    have ho := (object_alike halike).mp ho
    have ho' := (object_alike halike).mp ho'
    exact hd.disjoint o o' c c' l l' ho ho' hne (hd.chain_kept hkeeps ho hl) (hd.chain_kept hkeeps ho' hl')
  case apart =>
    intro o c l ho hl x hx hloose'
    have ho := (object_alike halike).mp ho
    have hl := hd.chain_kept hkeeps ho hl
    rcases hloose x hloose' with hold | hfree
    · exact hd.apart o c l ho hl hx hold
    · exact hl.linked_ne x hx (Free.unlinked ⟨hl.valid x hx, hfree⟩)
  case busy => exact hbusy
  case owned =>
    intro x hx hin
    refine (hused x hx hin).imp id fun ⟨hnot, hold⟩ => ?_
    obtain ⟨o, first, l, ho, hl, hmem⟩ := (hd.owned x hx hold).resolve_left hnot
    exact ⟨o, first, l, (object_alike halike).mpr ho, (hd.keeps_chain hkeeps ho hl).1, hmem⟩
  case encoded =>
    intro c slot hc hslot
    obtain ⟨hc', hslot', hentry⟩ := hslots hc hslot
    rw [hentry]
    exact hd.encoded c slot hc' hslot'
  case distinct =>
    intro c slot slot' hc hslot hslot' hname
    obtain ⟨hc', hmem, hentry⟩ := hslots hc hslot
    obtain ⟨-, hmem', hentry'⟩ := hslots hc hslot'
    rw [hentry, hentry'] at hname
    exact hd.distinct c slot slot' hc' hmem hmem' hname

end Relink

section Loose
variable {g : BpbGeometry} {n : Nat} (hg : g.Sound n) {d d' : Disk} {loose chain : List Nat} {first : Nat}
include hg

theorem keepsOwned_onlyData (hvalid : ∀ x ∈ loose, validCluster g x = true) (h : OnlyData g loose d d') :
    KeepsOwned g d d' loose := by
  intro x hx hlink
  obtain ⟨r, hr⟩ := Option.ne_none_iff_exists'.mp hlink
  exact ⟨h.link hg hvalid x, fun i hi => h.other hvalid (link_valid hr) hi hx⟩

theorem keepsOwned_linked (hfree : ∀ x ∈ chain, Free g d x) : KeepsOwned g d (patchFat g (.linked chain) d) [] :=
  fun x _ hlink => keepsInUse_linked hg hfree x hlink

theorem keepsOwned_cleared : KeepsOwned g d (patchFat g (.clear chain) d) chain := by
  intro x hx hlink
  obtain ⟨r, hr⟩ := Option.ne_none_iff_exists'.mp hlink
  exact ⟨link_patchFat hg (if_neg hx), fun i hi => patchFat_outside (Or.inr (dataLba_bounds hg (link_valid hr) hi).1)⟩

theorem Owned.onlyData (hd : Owned g d loose) (h : OnlyData g loose d d') : Owned g d' loose := by
  have hvalid : ∀ x ∈ loose, validCluster g x = true := fun x hx => (hd.busy x hx).1
  have hentry : ∀ x, validCluster g x = true → fatEntry g d' 0 x = fatEntry g d 0 x :=
    fun x hx => h.fatEntry hg hvalid hx hg.fatCountPos
  have hfree : ∀ x, validCluster g x = true → isFree g d' x = isFree g d x := by
    intro x hx
    unfold isFree
    rw [hentry x hx]
  refine hd.relink (keepsOwned_onlyData hg hvalid h) (fun x hx => h.agree hg hvalid hx (hd.agree x hx))
    (fun x hx hused => ?_) (fun x hx => Or.inl hx) fun x hx => ⟨hvalid x hx, ?_⟩
  · by_cases hmem : x ∈ loose
    · exact Or.inl hmem
    · unfold Used at hused
      rw [hfree x hx, hentry x hx] at hused
      exact Or.inr ⟨hmem, hused⟩
  · rw [hfree x (hvalid x hx)]
    exact (hd.busy x hx).2

theorem used_patchFat {p : Patch} {x : Nat} (hx : validCluster g x = true) (h : p 0 x = none) :
    fatEntry g (patchFat g p d) 0 x = fatEntry g d 0 x := by
  rw [fatEntry_patchFat hg p d hx hg.fatCountPos, h]

theorem Owned.allocated (hd : Owned g d []) (hfree : ∀ x ∈ chain, Free g d x) :
    Owned g (patchFat g (.linked chain) d) chain := by
  have hlow : ∀ {x v : Nat}, chainValue chain x = some v → v < 2 ^ 28 ∧ v ≠ 0 := by
    intro x v hv
    rcases chainValue_mem hv with rfl | hmem
    · decide
    · have hvalid := (hfree v hmem).1
      have hlt := valid_lt hg hvalid
      have hlo := (validCluster_iff.mp hvalid).1
      omega
  have hsame : ∀ x, validCluster g x = true → x ∉ chain →
      fatEntry g (patchFat g (.linked chain) d) 0 x = fatEntry g d 0 x :=
    fun x hx hnot => used_patchFat hg hx (chainValue_of_notMem hnot)
  refine hd.relink (keepsOwned_linked hg hfree) (fun x hx => ?_) (fun x hx hused => ?_)
    (fun x hx => Or.inr (hfree x hx).2) fun x hx => ⟨(hfree x hx).1, ?_⟩
  · cases hv : chainValue chain x with
    | none => exact (agree_patchFat hg hx fun _ _ => hv).mpr (hd.agree x hx)
    | some v =>
      intro k hk
      rw [fat28_patchFat hg hx hk (hlow hv).1 hv, fat28_patchFat hg hx hg.fatCountPos (hlow hv).1 hv]
  · by_cases hmem : x ∈ chain
    · exact Or.inl hmem
    · unfold Used isFree at hused
      rw [hsame x hx hmem] at hused
      exact Or.inr ⟨List.not_mem_nil, hused⟩
  · obtain ⟨v, hv⟩ := exists_chainValue hx
    unfold isFree
    rw [fat28_patchFat hg (hfree x hx).1 hg.fatCountPos (hlow hv).1 hv]
    exact decide_eq_false (hlow hv).2

theorem Owned.freed (hd : Owned g d chain) : Owned g (patchFat g (.clear chain) d) [] := by
  have hnone : ∀ {k x : Nat}, x ∉ chain → Patch.clear chain k x = none := fun hx => if_neg hx
  refine hd.relink (keepsOwned_cleared hg) (fun x hx => ?_)
    (fun x hx hused => ?_) (fun _ hx => absurd hx List.not_mem_nil) fun _ hx => absurd hx List.not_mem_nil
  · by_cases hmem : x ∈ chain
    · intro k hk
      rw [fat28_patchFat hg hx hk (by decide) (if_pos hmem), fat28_patchFat hg hx hg.fatCountPos (by decide) (if_pos hmem)]
    · exact (agree_patchFat hg hx fun _ _ => hnone hmem).mpr (hd.agree x hx)
  · right
    have hmem : x ∉ chain := by
      intro hmem
      have hfree : isFree g (patchFat g (.clear chain) d) x = true := by
        unfold isFree
        rw [fat28_patchFat hg hx hg.fatCountPos (by decide) (if_pos hmem)]
        rfl
      cases hfree.symm.trans hused.1
    unfold Used isFree at hused
    rw [used_patchFat hg hx (hnone hmem)] at hused
    exact ⟨hmem, hused⟩

end Loose

end Linux95.Fat32
