import Linux95.Fat32.Withdrawal
import Linux95.Storage.Continuations

/-! A file that is moved to another directory, on a drive that refuses at most one request. The entry is
published under the new name before it is deleted under the old one. -/

namespace Linux95.Fat32
open Base Storage Write

section Found
variable {g : BpbGeometry} {n : Nat} (hg : g.Sound n) (hm : g.mirroringEnabled = true) {d d' : Disk}
  (hd : WellFormed g d) (hkeep : KeepsDirectories g d d') {path : Option CString} {parent : Nat} {name : ShortName}
  (h : Leads g d path parent name)
include hg hm hd hkeep h

theorem Leads.answered {s : Search} (hs : value (findInDirectory g parent name) d' = .ok s) :
    value (resolvePath (some g) path) d' = .ok (answered parent name s) :=
  (value_resolvePath_iff hm _).mpr ⟨parent, name, s, (h.kept hg hd hkeep).1, hs, rfl⟩

theorem Leads.missing {l : List Nat} (hl : Chain g d' parent l) (hmiss : lookup g d' parent name = none) :
    ∀ r, value (resolvePath (some g) path) d' = .ok r → r.existing = false := by
  obtain ⟨free, tail, hvalue, -⟩ := value_missing hg hl hmiss
  intro r hr
  rw [h.answered hg hm hd hkeep hvalue] at hr
  rw [← Except.ok.inj hr]
  rfl

end Found

def ChainsApart (g : BpbGeometry) (d d' : Disk) : Prop :=
  ∀ c, Directory g d c → ∃ l, Chain g d' c l ∧
    ∀ c', Directory g d c' → c' ≠ c → ∀ l', Chain g d' c' l' → List.Disjoint l' l

section Deletion
variable {g : BpbGeometry} {n : Nat} (hg : g.Sound n) {d d' : Disk} (hapart : ChainsApart g d d') {c : Nat}
  (hc : Directory g d c) {slot : DirectorySlot} (hslot : slot ∈ usedSlots g d' c)
include hg hapart hc hslot

theorem alike_deleted {c' : Nat} (hc' : Directory g d c') (hne : c' ≠ c) : Alike g d' (deleteSlot d' slot) c' := by
  obtain ⟨l, hl, hdisjoint⟩ := hapart c hc
  obtain ⟨l', hl', -⟩ := hapart c' hc'
  exact (untouched_update hg hl.valid (used_dirSlots hl hslot)).alike hg hl.valid hl' (hdisjoint c' hc' hne l' hl')

theorem keepsDirectories_deleted (hkeep : KeepsDirectories g d d')
    (hfile : isDirectoryEntry (entryAt d' slot) = false) : KeepsDirectories g d (deleteSlot d' slot) := by
  intro c' name s hc' hname hfind hdirectory
  have hfound := hkeep c' name s hc' hname hfind hdirectory
  obtain ⟨l', hl', -⟩ := hapart c' hc'
  obtain ⟨hfind', hentry⟩ := lookup_of_found hg hl' hfound
  by_cases hsame : c' = c
  · subst hsame
    have hne : s ≠ slot := by
      rintro rfl
      rw [← hentry, hdirectory] at hfile
      cases hfile
    have hstill := (lookup_deleted hg hl' hslot).1 s hfind' hne
    rw [value_found hg (chain_deleteSlot hg hl' hslot hl') hstill,
      (deleted_slots hg hl' hslot).2 s (lookup_mem hfind').1 hne, hentry]
  · have halike := alike_deleted hg hapart hc hslot hc' hsame
    obtain ⟨l'', hl''⟩ := halike.linked
    rw [value_found hg hl'' ((halike.lookup name).trans hfind'), halike.entries s (lookup_mem hfind').1, hentry]

end Deletion

theorem does_deleteDirectoryEntry {g : BpbGeometry} {d : Disk} {slot : DirectorySlot}
    (hm : g.mirroringEnabled = true) (hvalid : validSlot g slot = true) (hlba : slot.lba < g.totalSectors)
    (hlive : liveShortEntry (entryAt d slot) = true) :
    Does g.totalSectors (deleteDirectoryEntry (some g) slot) d (.ok ()) (deleteSlot d slot) := by
  have hread : value (Write.readDirectoryEntry (some g) slot) d = .ok (entryAt d slot) := by
    unfold Write.readDirectoryEntry
    rw [geometryForWrite_bind, if_pos hm, if_neg (by rw [hvalid]; decide)]
    rfl
  have hput : Does g.totalSectors (putDirectoryEntryStatus g slot ((entryAt d slot).setByte 0 0xE5)) d (.ok ())
      (deleteSlot d slot) := by
    unfold putDirectoryEntryStatus
    rw [if_neg (by rw [hvalid]; decide)]
    exact .bind (.of_value (.read hlba) rfl) (.write .data hlba _)
  unfold deleteDirectoryEntry
  refine .bind (.of_value (reads_readDirectoryEntry slot) hread) ?_
  rw [if_neg (by rw [hlive]; decide), geometryForWrite_bind, if_pos hm]
  exact hput

section Objects
variable {g : BpbGeometry} {d : Disk} {c c' : Nat} {slot slot' : DirectorySlot} (hd : WellFormed g d)
  (hc : Directory g d c) (hc' : Directory g d c')
include hd hc hc'

omit hc' in
theorem WellFormed.object_chain (h : slot ∈ objectSlots g d c) (hne : firstCluster (entryAt d slot) ≠ 0) :
    ∃ l, Chain g d (firstCluster (entryAt d slot)) l := by
  cases hdirectory : isDirectoryEntry (entryAt d slot) with
  | true => exact hd.directories _ (.child hc h hdirectory)
  | false =>
    obtain ⟨l, hl, -⟩ := (hd.files c slot hc h hdirectory).2 hne
    exact ⟨l, hl⟩

theorem WellFormed.first_unique (h : slot ∈ objectSlots g d c) (h' : slot' ∈ objectSlots g d c')
    (heq : firstCluster (entryAt d slot') = firstCluster (entryAt d slot))
    (hne : firstCluster (entryAt d slot) ≠ 0) : slot' = slot := by
  by_contra hslot
  obtain ⟨l, hl⟩ := hd.object_chain hc h hne
  have hl' : Chain g d (firstCluster (entryAt d slot')) l := by
    rw [heq]
    exact hl
  exact hd.disjoint _ _ _ _ _ _ (.entry hc' h') (.entry hc h) (fun h => hslot (Option.some.inj h)) hl' hl
    hl.head_mem hl.head_mem

theorem WellFormed.slot_apart (h : slot ∈ usedSlots g d c) (hne : c' ≠ c) : slot ∉ usedSlots g d c' := by
  intro h'
  obtain ⟨l, hl⟩ := hd.directories c hc
  obtain ⟨l', hl'⟩ := hd.directories c' hc'
  obtain ⟨x, hx, i, j, hi, -, rfl⟩ := mem_dirSlots.mp (used_dirSlots hl h)
  obtain ⟨x', hx', i', j', hi', -, heq⟩ := mem_dirSlots.mp (used_dirSlots hl' h')
  have hsame := (dataLba_inj (hl.valid x hx) (hl'.valid x' hx') hi hi' (congrArg DirectorySlot.lba heq)).1
  rw [← hsame] at hx'
  exact hd.apart hc' hc hne hl' hl hx' hx

end Objects

section Published
variable {g : BpbGeometry} {n : Nat} (hg : g.Sound n) {d t : Disk} {c tail fresh : Nat} {chain chain' : List Nat}
  {slot : DirectorySlot} {e : Entry} {name : ShortName} {text : CString} (hd : WellFormed g d)
  (hc : Directory g d c) (hchain : Chain g d c chain)
  (h : Prepared g d c chain tail slot fresh t chain')
include hg hd hc hchain h

theorem Prepared.put_other {c' : Nat} (hc' : Directory g d c') (hne : c' ≠ c) : Alike g d (putSlot t slot e) c' := by
  obtain ⟨l, hl⟩ := hd.directories c' hc'
  have huntouched : Untouched g d (putSlot t slot e) chain' :=
    (h.untouched hg).trans (untouched_update hg h.linked.valid (h.slot_bounds hg).2.2)
  exact huntouched.alike hg h.linked.valid hl (h.apart hd hc hchain hc' hne hl)

omit hd hc hchain in
theorem Prepared.put_chain : Chain g (putSlot t slot e) c chain' :=
  h.linked.congr fun x _ => link_update hg (slot_lba hg h.linked.valid (h.slot_bounds hg).2.2) x

theorem Prepared.put_apart : ChainsApart g d (putSlot t slot e) := by
  have hchains : ∀ c', Directory g d c' → c' ≠ c → ∃ l, Chain g d c' l ∧ Chain g (putSlot t slot e) c' l := by
    intro c' hc' hne
    obtain ⟨l, hl⟩ := hd.directories c' hc'
    refine ⟨l, hl, hl.congr fun x hx => ?_⟩
    have hother : x ∉ chain' := h.apart hd hc hchain hc' hne hl hx
    have hvalid := hl.valid x hx
    unfold putSlot
    rw [link_update hg (slot_lba hg h.linked.valid (h.slot_bounds hg).2.2)]
    unfold link
    rw [if_pos hvalid, if_pos hvalid, (h.untouched hg).entries 0 x hg.fatCountPos hvalid hother]
  have hself := h.put_chain hg (e := e)
  intro c₁ hc₁
  by_cases hsame : c₁ = c
  · subst hsame
    refine ⟨chain', hself, fun c₂ hc₂ hne l₂ hl₂ => ?_⟩
    obtain ⟨l, hl, hl'⟩ := hchains c₂ hc₂ hne
    rw [hl₂.unique hl']
    exact h.apart hd hc hchain hc₂ hne hl
  · obtain ⟨l₁, hl₁, hl₁'⟩ := hchains c₁ hc₁ hsame
    refine ⟨l₁, hl₁', fun c₂ hc₂ hne l₂ hl₂ => ?_⟩
    by_cases hsame' : c₂ = c
    · subst hsame'
      rw [hl₂.unique hself]
      exact (h.apart hd hc hchain hc₁ hsame hl₁).symm
    · obtain ⟨l, hl, hl'⟩ := hchains c₂ hc₂ hsame'
      rw [hl₂.unique hl']
      exact hd.apart hc₂ hc₁ hne hl hl₁

variable (henc : encodeShortName text = some name) (hmiss : lookup g d c name = none)
include henc hmiss

omit hg hd hc hchain hmiss in
theorem Prepared.put_added : EntryAdded d (putSlot t slot (setName e name)) (dirSlots g chain) (dirSlots g chain') slot
    (setName e name) :=
  h.same.added (h.vacant.put (fun _ hx => aligned_of_mem hx) (dirSlots_nodup h.linked.valid h.linked.nodup)
    (setName_hit henc).1)

theorem Prepared.put_keeps : KeepsDirectories g d (putSlot t slot (setName e name)) := by
  intro c' name' s hc' hname hfind hdirectory
  by_cases hsame : c' = c
  · subst hsame
    have hadded := h.put_added henc (e := e)
    have hother : (liveShortEntry (setName e name) && nameMatches (setName e name) name') = false := by
      rw [Bool.and_eq_false_iff]
      right
      rw [Bool.eq_false_iff]
      intro hmatch
      have hencoded : encodeShortName text = some (setName e name).name := by
        rw [name_setName]
        exact henc
      have heq := (nameMatches_encoded hencoded).mp hmatch
      rw [name_setName] at heq
      rw [← heq, hmiss] at hfind
      cases hfind
    obtain ⟨hsearch, hentries⟩ := hadded.find_other hother
    have hfind' := hfind
    unfold lookup at hfind'
    rw [usedSlots_chain hchain] at hfind'
    have hfound : lookup g (putSlot t slot (setName e name)) c' name' = some s := by
      unfold lookup
      rw [usedSlots_chain (h.put_chain hg), hsearch]
      exact hfind'
    rw [value_found hg (h.put_chain hg) hfound, hentries s hfind']
  · have halike := h.put_other hg hd hc hchain hc' hsame (e := setName e name)
    obtain ⟨l, hl⟩ := halike.linked
    rw [value_found hg hl ((halike.lookup name').trans hfind), halike.entries s (lookup_mem hfind).1]

omit hd hc in
theorem Prepared.put_found (hattr : e.byte 11 &&& 0x08 = 0) :
    lookup g (putSlot t slot (setName e name)) c name = some slot ∧
      entryAt (putSlot t slot (setName e name)) slot = setName e name ∧
      ∀ x ∈ usedSlots g (putSlot t slot (setName e name)) c, x ≠ slot →
        x ∈ usedSlots g d c ∧ entryAt (putSlot t slot (setName e name)) x = entryAt d x := by
  have hadded := h.put_added henc (e := e)
  obtain ⟨-, hmatch, hlive⟩ := setName_hit (e := e) henc
  have hmiss' := hmiss
  unfold lookup at hmiss'
  rw [usedSlots_chain hchain] at hmiss'
  refine ⟨?_, entryAt_putSlot_self (aligned_of_mem (h.slot_bounds hg).2.2) _, fun x hx hne => ?_⟩
  · unfold lookup
    rw [usedSlots_chain (h.put_chain hg)]
    exact hadded.find_new (Bool.and_eq_true_iff.mpr ⟨hlive hattr, hmatch⟩) hmiss'
  · obtain ⟨pre, post, hbefore, hafter, hentries, -⟩ := hadded
    rw [usedSlots_chain (h.put_chain hg), hafter] at hx
    rw [usedSlots_chain hchain]
    have hmem : x ∈ pre ++ post := by
      rcases List.mem_append.mp hx with hx | hx
      · exact List.mem_append_left _ hx
      · exact List.mem_append_right _ ((List.mem_cons.mp hx).resolve_left hne)
    refine ⟨?_, hentries x hmem⟩
    rcases hbefore with hin | ⟨hin, -⟩
    · exact hin ▸ hmem
    · rw [hin]
      rcases List.mem_append.mp hmem with hx | hx
      · exact List.mem_append_left _ hx
      · exact List.mem_append_right _ (List.mem_cons_of_mem slot hx)

end Published

def HoldsChain (g : BpbGeometry) (d : Disk) (c first : Nat) : Prop :=
  first ≠ 0 ∧ ∃ slot ∈ objectSlots g d c, firstCluster (entryAt d slot) = first

def Resolves (g : BpbGeometry) (d : Disk) (path : Option CString) (first size : Nat) : Prop :=
  ∃ r, value (resolvePath (some g) path) d = .ok r ∧ r.existing = true ∧ liveShortEntry r.entry = true ∧
    firstCluster r.entry = first ∧ le32 r.entry.byte 28 = size

/-- Only the path `there` resolves to the file, and of the two directories only the one of that path may hold
its chain. -/
def OnlyAt (g : BpbGeometry) (d : Disk) (there elsewhere : Option CString) (away first size : Nat) : Prop :=
  Resolves g d there first size ∧ ¬ Resolves g d elsewhere first size ∧ ¬ HoldsChain g d away first

def publishTarget (vol : Option BpbGeometry) (source destination : Option CString) :
    Io (BpbGeometry × ResolvedPath × DirectorySlot) := do
  let source ← resolvePath vol source
  let target ← resolvePath vol destination
  let g ← geometryForWrite vol
  checkMovable g source.entry (firstCluster source.entry)
  match ← createDirectoryEntry vol target.parentCluster (shortComponent target.name) source.entry with
  | .error (status, _) => throw status
  | .ok published => pure (g, source, published)

/-- The drive refuses the read with which `put_directory_entry` begins to delete the source. -/
def DeletionRefused (vol : Option BpbGeometry) (source destination : Option CString) (dev : Device) : Prop :=
  ∃ r dev', (publishTarget vol source destination).exec dev = (.ok r, dev') ∧ dev'.faults 0 ≠ .none

section Outcomes
variable {g : BpbGeometry} {n : Nat} (hg : g.Sound n) (hm : g.mirroringEnabled = true) {d d' : Disk}
  (hd : WellFormed g d) {source destination : Option CString} {P Q : Nat} {ns nt : ShortName} {s : DirectorySlot}
  (hsource : Leads g d source P ns) (hfound : lookup g d P ns = some s) (hP : Directory g d P)
  (hdestination : Leads g d destination Q nt) (hmiss : lookup g d Q nt = none) (hQ : Directory g d Q) (hne : P ≠ Q)

theorem found_live (hfound : lookup g d P ns = some s) : liveShortEntry (entryAt d s) = true :=
  (Bool.and_eq_true_iff.mp (lookup_mem hfound).2).1

theorem setName_cluster (e : Entry) (name : ShortName) :
    firstCluster (setName e name) = firstCluster e ∧ le32 (setName e name).byte 28 = le32 e.byte 28 := by
  unfold firstCluster le16 le32
  rw [byte_setName_high (by decide), byte_setName_high (by decide), byte_setName_high (by decide),
    byte_setName_high (by decide), byte_setName_high (by decide), byte_setName_high (by decide),
    byte_setName_high (by decide), byte_setName_high (by decide)]
  exact ⟨rfl, rfl⟩

theorem setName_directory (e : Entry) (name : ShortName) : isDirectoryEntry (setName e name) = isDirectoryEntry e := by
  unfold isDirectoryEntry
  rw [byte_setName_high (le_refl 11)]

include hg hm hd

theorem resolves_of_lookup {path : Option CString} {parent : Nat} {name : ShortName} (h : Leads g d path parent name)
    (hkeep : KeepsDirectories g d d') {l : List Nat} (hl : Chain g d' parent l) {slot : DirectorySlot}
    (hlook : lookup g d' parent name = some slot) :
    Resolves g d' path (firstCluster (entryAt d' slot)) (le32 (entryAt d' slot).byte 28) :=
  ⟨_, h.answered hg hm hd hkeep (value_found hg hl hlook), rfl, found_live hlook, rfl, rfl⟩

theorem not_resolves {path : Option CString} {parent : Nat} {name : ShortName} (h : Leads g d path parent name)
    (hkeep : KeepsDirectories g d d') {l : List Nat} (hl : Chain g d' parent l)
    (hlook : lookup g d' parent name = none) (first size : Nat) : ¬ Resolves g d' path first size := by
  rintro ⟨r, hr, hexists, -⟩
  rw [h.missing hg hm hd hkeep hl hlook r hr] at hexists
  cases hexists

omit hg hm in
include hfound hP hQ hne hsource in
theorem not_holdsChain (h : ∀ x ∈ objectSlots g d' Q, x ∈ objectSlots g d Q ∧ entryAt d' x = entryAt d x) :
    ¬ HoldsChain g d' Q (firstCluster (entryAt d s)) := by
  rintro ⟨hfirst, x, hx, heq⟩
  obtain ⟨text, henc⟩ := hsource.encoded
  obtain ⟨hmem, hentry⟩ := h x hx
  rw [hentry] at heq
  obtain rfl := hd.first_unique hP hQ (lookup_object henc hfound) hmem heq hfirst
  exact hd.slot_apart hP hQ (lookup_mem hfound).1 hne.symm (mem_objectSlots.mp hmem).1

include hsource hfound hP hdestination hmiss hQ hne

theorem onlyAt_calm (hcalm : Calm g d d') :
    OnlyAt g d' source destination Q (firstCluster (entryAt d s)) (le32 (entryAt d s).byte 28) := by
  have hkeep := keepsDirectories_of_alike hg hcalm
  obtain ⟨l, hl⟩ := (hcalm P hP).linked
  obtain ⟨l', hl'⟩ := (hcalm Q hQ).linked
  have hresolves := resolves_of_lookup hg hm hd hsource hkeep hl (((hcalm P hP).lookup ns).trans hfound)
  rw [(hcalm P hP).entries s (lookup_mem hfound).1] at hresolves
  refine ⟨hresolves, not_resolves hg hm hd hdestination hkeep hl' (((hcalm Q hQ).lookup nt).trans hmiss) _ _, ?_⟩
  refine not_holdsChain hd hsource hfound hP hQ hne fun x hx => ?_
  obtain ⟨hused, hlive, hdot⟩ := mem_objectSlots.mp hx
  rw [(hcalm Q hQ).slots] at hused
  have hentry := (hcalm Q hQ).entries x hused
  rw [hentry] at hlive hdot
  exact ⟨mem_objectSlots.mpr ⟨hused, hlive, hdot⟩, hentry⟩

variable (hfile : isDirectoryEntry (entryAt d s) = false) {chain chain' : List Nat} {tail fresh : Nat}
  {slot : DirectorySlot} {t : Disk} (hchain : Chain g d Q chain)
  (hprepared : Prepared g d Q chain tail slot fresh t chain')
include hchain hprepared

omit hm hfound hP hne hsource in
theorem target_found (hlive : liveShortEntry (entryAt d s) = true) :
    lookup g (putSlot t slot (setName (entryAt d s) nt)) Q nt = some slot ∧
      entryAt (putSlot t slot (setName (entryAt d s) nt)) slot = setName (entryAt d s) nt ∧
      (∀ x ∈ usedSlots g (putSlot t slot (setName (entryAt d s) nt)) Q, x ≠ slot →
        x ∈ usedSlots g d Q ∧ entryAt (putSlot t slot (setName (entryAt d s) nt)) x = entryAt d x) ∧
      KeepsDirectories g d (putSlot t slot (setName (entryAt d s) nt)) := by
  obtain ⟨text, henc⟩ := hdestination.encoded
  obtain ⟨hlook, hentry, hother⟩ := hprepared.put_found hg hchain henc hmiss (liveShortEntry_iff.mp hlive).2.2.2
  exact ⟨hlook, hentry, hother, hprepared.put_keeps hg hd hQ hchain henc hmiss⟩

theorem both_resolve :
    Resolves g (putSlot t slot (setName (entryAt d s) nt)) source (firstCluster (entryAt d s))
      (le32 (entryAt d s).byte 28) ∧
    Resolves g (putSlot t slot (setName (entryAt d s) nt)) destination (firstCluster (entryAt d s))
      (le32 (entryAt d s).byte 28) := by
  obtain ⟨hlook, hentry, -, hkeep⟩ :=
    target_found hg hd hdestination hmiss hQ hchain hprepared (found_live hfound)
  have halike := hprepared.put_other hg hd hQ hchain hP hne (e := setName (entryAt d s) nt)
  obtain ⟨l, hl⟩ := halike.linked
  have hfrom := resolves_of_lookup hg hm hd hsource hkeep hl ((halike.lookup ns).trans hfound)
  have hto := resolves_of_lookup hg hm hd hdestination hkeep (hprepared.put_chain hg) hlook
  rw [halike.entries s (lookup_mem hfound).1] at hfrom
  rw [hentry, (setName_cluster _ nt).1, (setName_cluster _ nt).2] at hto
  exact ⟨hfrom, hto⟩

include hfile

theorem onlyAt_target :
    OnlyAt g (deleteSlot (putSlot t slot (setName (entryAt d s) nt)) s) destination source P
      (firstCluster (entryAt d s)) (le32 (entryAt d s).byte 28) := by
  obtain ⟨text, henc⟩ := hsource.encoded
  obtain ⟨hlook, hentry, -, hkeep⟩ :=
    target_found hg hd hdestination hmiss hQ hchain hprepared (found_live hfound)
  have halike := hprepared.put_other hg hd hQ hchain hP hne (e := setName (entryAt d s) nt)
  have hapart := hprepared.put_apart hg hd hQ hchain (e := setName (entryAt d s) nt)
  generalize putSlot t slot (setName (entryAt d s) nt) = t' at hlook hentry hkeep halike hapart ⊢
  obtain ⟨l, hl⟩ := halike.linked
  have hmem : s ∈ usedSlots g t' P := by
    rw [halike.slots]
    exact (lookup_mem hfound).1
  have hfrom : entryAt t' s = entryAt d s := halike.entries s (lookup_mem hfound).1
  have hkeep' := keepsDirectories_deleted hg hapart hP hmem hkeep (by rw [hfrom]; exact hfile)
  have halike' := alike_deleted hg hapart hP hmem hQ hne.symm
  obtain ⟨l', hl'⟩ := halike'.linked
  obtain ⟨hslots, hentries⟩ := deleted_slots hg hl hmem
  have hto := resolves_of_lookup hg hm hd hdestination hkeep' hl' ((halike'.lookup nt).trans hlook)
  rw [halike'.entries slot (lookup_mem hlook).1, hentry, (setName_cluster _ nt).1, (setName_cluster _ nt).2] at hto
  refine ⟨hto, ?_, ?_⟩
  · refine not_resolves hg hm hd hsource hkeep' (chain_deleteSlot hg hl hmem hl) ?_ _ _
    refine (lookup_deleted hg hl hmem).2 fun x hx hhit => ?_
    -- the names of the directory are distinct
    rw [halike.slots] at hx
    have hx' : isHit d ns x = true := (isHit_congr (halike.entries x hx)).symm.trans hhit
    have hobject := mem_objectSlots.mpr ⟨hx, hit_ordinary henc hx'⟩
    have hobject' := lookup_object henc hfound
    have hname : ∀ y, y ∈ objectSlots g d P → isHit d ns y = true → (entryAt d y).name = ns := by
      intro y hy hhit'
      obtain ⟨⟨text', henc'⟩, -⟩ := hd.encoded P y hP hy
      exact (nameMatches_encoded henc').mp (Bool.and_eq_true_iff.mp hhit').2
    refine hd.distinct P x s hP hobject hobject' ?_
    rw [hname x hobject hx', hname s hobject' (lookup_mem hfound).2]
  · rintro ⟨hfirst, x, hx, heq⟩
    obtain ⟨hused, hlive, hdot⟩ := mem_objectSlots.mp hx
    rw [hslots] at hused
    have hxs : x ≠ s := by
      rintro rfl
      rw [entryAt_deleteSlot hl hmem] at hlive
      exact absurd hlive (by simp [liveShortEntry, Entry.byte, Entry.setByte])
    rw [hentries x hused hxs] at heq hlive hdot
    rw [halike.slots] at hused
    rw [halike.entries x hused] at heq hlive hdot
    exact hxs (hd.first_unique hP hP (lookup_object henc hfound) (mem_objectSlots.mpr ⟨hused, hlive, hdot⟩) heq hfirst)

theorem onlyAt_source :
    OnlyAt g (deleteSlot (putSlot t slot (setName (entryAt d s) nt)) slot) source destination Q
      (firstCluster (entryAt d s)) (le32 (entryAt d s).byte 28) := by
  obtain ⟨hlook, hentry, hother, hkeep⟩ :=
    target_found hg hd hdestination hmiss hQ hchain hprepared (found_live hfound)
  have halike := hprepared.put_other hg hd hQ hchain hP hne (e := setName (entryAt d s) nt)
  have hapart := hprepared.put_apart hg hd hQ hchain (e := setName (entryAt d s) nt)
  have hl := hprepared.put_chain hg (e := setName (entryAt d s) nt)
  generalize putSlot t slot (setName (entryAt d s) nt) = t' at hlook hentry hkeep halike hapart hl hother ⊢
  have hmem := (lookup_mem hlook).1
  have hkeep' := keepsDirectories_deleted hg hapart hQ hmem hkeep
    (by rw [hentry, setName_directory]; exact hfile)
  have halike' := alike_deleted hg hapart hQ hmem hP hne
  obtain ⟨l', hl'⟩ := halike'.linked
  obtain ⟨hslots, hentries⟩ := deleted_slots hg hl hmem
  have hfrom := resolves_of_lookup hg hm hd hsource hkeep' hl'
    ((halike'.lookup ns).trans ((halike.lookup ns).trans hfound))
  rw [(halike.trans halike').entries s (lookup_mem hfound).1] at hfrom
  refine ⟨hfrom, ?_, ?_⟩
  · refine not_resolves hg hm hd hdestination hkeep' (chain_deleteSlot hg hl hmem hl) ?_ _ _
    refine (lookup_deleted hg hl hmem).2 fun x hx hhit => ?_
    by_contra hxs
    obtain ⟨hx', hsame⟩ := hother x hx hxs
    rw [isHit_congr hsame] at hhit
    exact List.find?_eq_none.mp hmiss x hx' hhit
  · refine not_holdsChain hd hsource hfound hP hQ hne fun x hx => ?_
    obtain ⟨hused, hlive, hdot⟩ := mem_objectSlots.mp hx
    rw [hslots] at hused
    have hxs : x ≠ slot := by
      rintro rfl
      rw [entryAt_deleteSlot hl hmem] at hlive
      exact absurd hlive (by simp [liveShortEntry, Entry.byte, Entry.setByte])
    obtain ⟨hused', hsame⟩ := hother x hused hxs
    have hentry' := (hentries x hused hxs).trans hsame
    rw [hentry'] at hlive hdot
    exact ⟨mem_objectSlots.mpr ⟨hused', hlive, hdot⟩, hentry'⟩

end Outcomes

theorem encodeComponent_shortComponent {text : CString} {name : ShortName} (h : encodeShortName text = some name) :
    encodeComponent (shortComponent name) = some name := by
  have hupper := encodeShortName_upper h
  have hlen := encodeShortName_length hupper
  obtain ⟨base, extension, htext, -, -, -, hb, he, -⟩ := encodeShortName_some hupper
  have hplain : ∀ c ∈ text.map asciiUpper, c ≠ 0 := by
    intro c hc
    rw [htext] at hc
    rcases List.mem_append.mp hc with hc | hc
    · exact (shortNameCharacter_ne c (hb c hc)).1
    · split_ifs at hc
      · cases hc
      · rcases List.mem_cons.mp hc with rfl | hc
        · decide
        · exact (shortNameCharacter_ne c (he c hc)).1
  have hall : (text.map asciiUpper).takeWhile (· ≠ 0) = text.map asciiUpper :=
    List.takeWhile_eq_self_iff.mpr fun c hc => decide_eq_true (hplain c hc)
  unfold encodeComponent
  rw [shortComponent_encoded h, hall, if_pos (by omega)]
  exact hupper

section Run
variable {g : BpbGeometry} {n : Nat} (hg : g.Sound n) (hm : g.mirroringEnabled = true) {d : Disk}
  (hd : WellFormed g d) {source destination : Option CString} {P Q : Nat} {ns nt : ShortName} {s : DirectorySlot}
  (hsource : Leads g d source P ns) (hfound : lookup g d P ns = some s)
  (hfile : isDirectoryEntry (entryAt d s) = false) (hP : Directory g d P)
  (hdestination : Leads g d destination Q nt) (hmiss : lookup g d Q nt = none) (hQ : Directory g d Q) (hne : P ≠ Q)

def PublishedAt (g : BpbGeometry) (d : Disk) (Q : Nat) (e : Entry) (slot : DirectorySlot) (t : Disk) : Prop :=
  ∃ chain tail fresh t₀ chain', Chain g d Q chain ∧ Prepared g d Q chain tail slot fresh t₀ chain' ∧
    t = putSlot t₀ slot e

include hg hm hd hsource hfound hfile hP hdestination hmiss hQ hne

theorem move_goesOn : GoesOn g.totalSectors (Write.move (some g) source destination)
    (publishTarget (some g) source destination) (fun r => deleteSource (some g) r.1 r.2.1 r.2.2) d
    (fun r t => r.1 = g ∧ r.2.1 = ⟨P, ns, true, s, entryAt d s⟩ ∧
      PublishedAt g d Q (setName (entryAt d s) nt) r.2.2 t) (Calm g d) := by
  obtain ⟨l, hl⟩ := hd.directories P hP
  obtain ⟨chain, hchain⟩ := hd.directories Q hQ
  obtain ⟨text, henc⟩ := hdestination.encoded
  have hstill := keepsDirectories_of_alike hg (calm_refl hd)
  have hfrom : value (resolvePath (some g) source) d = .ok ⟨P, ns, true, s, entryAt d s⟩ :=
    hsource.answered hg hm hd hstill (value_found hg hl hfound)
  obtain ⟨free, tail, hmissing, -⟩ := value_missing hg hchain hmiss
  have hto : value (resolvePath (some g) destination) d = .ok ⟨Q, nt, false, ⟨0, 0⟩, Entry.zero⟩ :=
    hdestination.answered hg hm hd hstill hmissing
  have hcalm := calm_refl hd
  unfold Write.move publishTarget
  refine .read (reads_resolvePath source) hcalm fun r hr => ?_
  obtain rfl := Except.ok.inj (hfrom.symm.trans hr)
  refine .read (reads_resolvePath destination) hcalm fun r hr => ?_
  obtain rfl := Except.ok.inj (hto.symm.trans hr)
  dsimp only
  rw [geometryForWrite_bind, if_pos hm, geometryForWrite_bind, if_pos hm]
  have hsplit : ¬ (isDirectoryEntry (entryAt d s) = true ∧ P ≠ Q) := fun h => by rw [hfile] at h; cases h.1
  rw [if_neg hsplit]
  refine .read (reads_checkMovable _ _) hcalm fun _ _ => ?_
  rw [if_neg hne]
  intro dev honce hdev
  obtain ⟨created, dev', hexec, hout⟩ := createDirectoryEntry_once hg hm hd.agree hchain hmiss hd hQ
    (encodeComponent_shortComponent henc) (entryAt d s) honce hdev
  rw [Exec.exec_bind, Exec.exec_bind, hexec]
  rcases hout with ⟨⟨⟨status, known⟩, rfl⟩, hcalm'⟩ | ⟨slot, tail, fresh, t, chain', rfl, hprepared, hsec, honce'⟩
  · exact Or.inr ⟨⟨status, rfl⟩, ⟨status, rfl⟩, hcalm'⟩
  · exact Or.inl ⟨_, dev', rfl, ⟨rfl, rfl, chain, tail, fresh, t, chain', hchain, hprepared, hsec⟩, honce', rfl⟩

/-- The file is at exactly one of the two paths, at the destination where `move` reported success. -/
def MovedOrNot (g : BpbGeometry) (run : Except Status Unit × Device) (source destination : Option CString)
    (P Q first size : Nat) : Prop :=
  (run.1 = .ok () ∧ OnlyAt g run.2.sectors destination source P first size) ∨
  ((∃ e, run.1 = .error e) ∧ OnlyAt g run.2.sectors source destination Q first size)

def LeftBoth (g : BpbGeometry) (run : Except Status Unit × Device) (source destination : Option CString)
    (first size : Nat) : Prop :=
  run.1 = .error .ioError ∧ Resolves g run.2.sectors source first size ∧
    Resolves g run.2.sectors destination first size

theorem deleteSource_once {slot : DirectorySlot} {dev : Device} (honce : dev.Once g.totalSectors)
    (h : PublishedAt g d Q (setName (entryAt d s) nt) slot dev.sectors) :
    (dev.faults 0 ≠ .none → LeftBoth g ((deleteSource (some g) g ⟨P, ns, true, s, entryAt d s⟩ slot).exec dev)
      source destination (firstCluster (entryAt d s)) (le32 (entryAt d s).byte 28)) ∧
    (dev.faults 0 = .none → MovedOrNot g ((deleteSource (some g) g ⟨P, ns, true, s, entryAt d s⟩ slot).exec dev)
      source destination P Q (firstCluster (entryAt d s)) (le32 (entryAt d s).byte 28)) := by
  -- The deletion of the source behind the publication. The published entry stays when the drive refuses the
  -- first read, since the source is then not read back.
  obtain ⟨chain, tail, fresh, t, chain', hchain, hprepared, hsec⟩ := h
  obtain ⟨l, hl⟩ := hd.directories P hP
  obtain ⟨hvalid, -, hlba⟩ := slot_bounds hg hl.valid (used_dirSlots hl (lookup_mem hfound).1)
  obtain ⟨hvalid', hlba', -⟩ := hprepared.slot_bounds hg
  have hboth := both_resolve hg hm hd hsource hfound hP hdestination hmiss hQ hne hchain hprepared
  have htarget := onlyAt_target hg hm hd hsource hfound hP hdestination hmiss hQ hne hfile hchain hprepared
  have hkept := onlyAt_source hg hm hd hsource hfound hP hdestination hmiss hQ hne hfile hchain hprepared
  have halike := hprepared.put_other hg hd hQ hchain hP hne (e := setName (entryAt d s) nt)
  have hpublished := (target_found hg hd hdestination hmiss hQ hchain hprepared (found_live hfound)).1
  have hsame : (entryAt d s).setByte 0 0xE5 = (entryAt dev.sectors s).setByte 0 0xE5 := by
    rw [hsec, halike.entries s (lookup_mem hfound).1]
  rw [← hsec] at hboth htarget hkept hpublished
  unfold deleteSource
  dsimp only
  rw [Exec.exec_bind, Exec.exec_attempt]
  rcases putDirectoryEntry_once (e := (entryAt d s).setByte 0 0xE5) honce hvalid hlba with
    ⟨hread, dev', hexec, hsec', -⟩ | ⟨hread, hwrite, dev', hexec, hsec', hready⟩ |
    ⟨hread, hwrite, dev', hexec, hsec', -⟩
  · refine ⟨fun _ => ?_, fun h => absurd h hread⟩
    rw [hexec]
    refine ⟨rfl, ?_⟩
    rw [show ((throw Status.ioError : Io Unit).exec dev').2.sectors = dev.sectors from hsec']
    exact hboth
  -- the write is refused and the source read back: the published entry is deleted
  · refine ⟨fun h => absurd hread h, fun _ => ?_⟩
    rw [hexec]
    dsimp only
    have hdeletes := does_deleteDirectoryEntry (d := dev.sectors) hm hvalid' hlba' (found_live hpublished)
    obtain ⟨hr, hsec''⟩ := hdeletes.exec hready hsec'
    rw [Exec.exec_bind, Exec.exec_attempt]
    cases hrun : (deleteDirectoryEntry (some g) slot).exec dev' with
    | mk r dev'' =>
      rw [hrun] at hr hsec''
      refine Or.inr ⟨⟨.ioError, rfl⟩, ?_⟩
      rw [show ((throw Status.ioError : Io Unit).exec dev'').2.sectors = deleteSlot dev.sectors slot from hsec'']
      exact hkept
  · refine ⟨fun h => absurd hread h, fun _ => ?_⟩
    rw [hexec]
    refine Or.inl ⟨rfl, ?_⟩
    rw [show ((pure () : Io Unit).exec dev').2.sectors = deleteSlot dev.sectors s from
      hsec'.trans (by unfold deleteSlot; rw [hsame])]
    exact htarget

theorem move_once {dev : Device} (honce : dev.Once g.totalSectors) (hdev : dev.sectors = d) :
    (DeletionRefused (some g) source destination dev → LeftBoth g ((Write.move (some g) source destination).exec dev)
      source destination (firstCluster (entryAt d s)) (le32 (entryAt d s).byte 28)) ∧
    (¬ DeletionRefused (some g) source destination dev →
      MovedOrNot g ((Write.move (some g) source destination).exec dev) source destination P Q
        (firstCluster (entryAt d s)) (le32 (entryAt d s).byte 28)) := by
  rcases move_goesOn hg hm hd hsource hfound hfile hP hdestination hmiss hQ hne dev honce hdev with
    ⟨⟨g', r, slot⟩, dev', hexec, ⟨rfl, rfl, hpublished⟩, honce', hrun⟩ | ⟨⟨e, he⟩, hfails, hcalm⟩
  · have hrefused : DeletionRefused (some g') source destination dev ↔ dev'.faults 0 ≠ .none := by
      constructor
      · rintro ⟨r', dev'', hexec', hfault⟩
        rw [hexec] at hexec'
        rw [(Prod.mk.inj hexec').2]
        exact hfault
      · exact fun hfault => ⟨_, dev', hexec, hfault⟩
    rw [hrefused, hrun, not_ne_iff]
    exact deleteSource_once hg hm hd hsource hfound hfile hP hdestination hmiss hQ hne honce' hpublished
  · refine ⟨?_, fun _ => Or.inr ⟨hfails, ?_⟩⟩
    · rintro ⟨r', dev'', hexec', -⟩
      rw [hexec'] at he
      cases he
    · exact onlyAt_calm hg hm hd hsource hfound hP hdestination hmiss hQ hne hcalm

end Run

theorem leads_of_resolved {g : BpbGeometry} {n : Nat} (hg : g.Sound n) (hm : g.mirroringEnabled = true) {d : Disk}
    (hd : WellFormed g d) {path : Option CString} {r : ResolvedPath} (h : value (resolvePath (some g) path) d = .ok r) :
    Leads g d path r.parentCluster r.name ∧ Directory g d r.parentCluster ∧
      (r.existing = true → lookup g d r.parentCluster r.name = some r.slot ∧ r.entry = entryAt d r.slot) ∧
      (r.existing = false → lookup g d r.parentCluster r.name = none) := by
  obtain ⟨parent, name, found, hleads, hvalue, rfl⟩ := (value_resolvePath_iff hm r).mp h
  have hparent := (hleads.kept hg hd (keepsDirectories_of_alike hg (calm_refl hd))).2
  obtain ⟨l, hl⟩ := hd.directories parent hparent
  cases found with
  | found slot e => exact ⟨hleads, hparent, fun _ => lookup_of_found hg hl hvalue, Bool.noConfusion⟩
  | notFound free tail => exact ⟨hleads, hparent, Bool.noConfusion, fun _ => lookup_of_missing hg hl hvalue⟩

/-- **A move under a single fault.** On a sound volume and a drive that refuses at most one request, a file
that is moved to another directory is afterwards at exactly one of the two paths, at the destination if and
only if `move` reported success. The exception is a drive that refuses the read with which the deletion of
the old entry begins: both paths then resolve to the file. -/
theorem move_single_fault (sector : Sector) (diskSectors : Nat) (g : BpbGeometry)
    (hparse : parseBpb sector diskSectors = some g) (hm : g.mirroringEnabled = true) (dev : Device)
    (honce : dev.Once g.totalSectors) (hd : WellFormed g dev.sectors) (source destination : Option CString)
    (old new : ResolvedPath) (hold : value (resolvePath (some g) source) dev.sectors = .ok old)
    (hexists : old.existing = true) (hfile : isDirectoryEntry old.entry = false)
    (hnew : value (resolvePath (some g) destination) dev.sectors = .ok new) (habsent : new.existing = false)
    (hne : old.parentCluster ≠ new.parentCluster) :
    (DeletionRefused (some g) source destination dev →
      LeftBoth g ((Write.move (some g) source destination).exec dev) source destination
        (firstCluster old.entry) (le32 old.entry.byte 28)) ∧
    (¬ DeletionRefused (some g) source destination dev →
      MovedOrNot g ((Write.move (some g) source destination).exec dev) source destination
        old.parentCluster new.parentCluster (firstCluster old.entry) (le32 old.entry.byte 28)) := by
  have hg := parseBpb_sound hparse
  obtain ⟨hsource, hP, hfound, -⟩ := leads_of_resolved hg hm hd hold
  obtain ⟨hdestination, hQ, -, hmiss⟩ := leads_of_resolved hg hm hd hnew
  obtain ⟨hlook, hentry⟩ := hfound hexists
  rw [hentry] at hfile ⊢
  exact move_once hg hm hd hsource hlook hfile hP hdestination (hmiss habsent) hQ hne honce rfl

/-- `/A` is moved to `/D/B`, and the drive refuses the request behind the publication. -/
theorem move_single_fault_small :
    LeftBoth smallGeometry
      ((Write.move (some smallGeometry) (some [0x2F, 0x41]) (some [0x2F, 0x44, 0x2F, 0x42])).exec (treeDevice 13))
      (some [0x2F, 0x41]) (some [0x2F, 0x44, 0x2F, 0x42]) 4 5 := by
  let source : Option CString := some [0x2F, 0x41]
  let destination : Option CString := some [0x2F, 0x44, 0x2F, 0x42]
  obtain ⟨old, hold, hexists, hfile, hparent, hfirst, hsize⟩ : ∃ old,
      value (resolvePath (some smallGeometry) source) treeDisk = .ok old ∧ old.existing = true ∧
        isDirectoryEntry old.entry = false ∧ old.parentCluster = 2 ∧ firstCluster old.entry = 4 ∧
        le32 old.entry.byte 28 = 5 := ⟨_, rfl, by decide +kernel⟩
  obtain ⟨new, hnew, habsent, hparent'⟩ : ∃ new,
      value (resolvePath (some smallGeometry) destination) treeDisk = .ok new ∧ new.existing = false ∧
        new.parentCluster = 3 := ⟨_, rfl, by decide +kernel⟩
  have hne : old.parentCluster ≠ new.parentCluster := by rw [hparent, hparent']; decide
  have hrefused : DeletionRefused (some smallGeometry) source destination (treeDevice 13) := by
    have hok : ((publishTarget (some smallGeometry) source destination).exec (treeDevice 13)).1.isOk = true := by
      decide +kernel
    have hfault : ((publishTarget (some smallGeometry) source destination).exec (treeDevice 13)).2.faults 0 ≠ .none := by
      decide +kernel
    cases hrun : (publishTarget (some smallGeometry) source destination).exec (treeDevice 13) with
    | mk r dev' =>
      rw [hrun] at hok hfault
      cases r with
      | ok published => exact ⟨published, dev', hrun, hfault⟩
      | error e => cases hok
  have hmove := (move_single_fault smallBoot 66586 smallGeometry parseBpb_smallBoot rfl (treeDevice 13)
    (treeDevice_once 13) wellFormed_treeDisk source destination old new hold hexists hfile hnew habsent hne).1 hrefused
  rw [hfirst, hsize] at hmove
  exact hmove

end Linux95.Fat32
