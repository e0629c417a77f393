import Linux95.Memory.TableTrees
import Mathlib.Order.BooleanAlgebra.Set

/-! What the operations of `memory/user_space.cpp` do to the trees of tables. -/

namespace Linux95.Memory
open Base LinkedTables Machine

variable {m m' m'' : Machine} {roots kernel : Set Word} {reference : PhysicalMemory}

/-- Tables are built for the space with root `r`: a page that leaves the allocator becomes a table of
that space. -/
structure Grows (roots : Set Word) (r : Word) (m m' : Machine) : Prop where
  kernelRoot : m'.kernelRoot = m.kernelRoot
  nxeEnabled : m'.nxeEnabled = m.nxeEnabled
  managed : m'.allocator.managed = m.allocator.managed
  releases : m'.allocator.releases = m.allocator.releases
  others : ∀ r' ∈ roots, r' ≠ r → held m'.memory r' = held m.memory r'
  ledger : m'.allocator.free ∪ held m'.memory r = m.allocator.free ∪ held m.memory r
  nodes : ∀ path p, UserPath path → node m.memory r path = some p → node m'.memory r path = some p

def SameViews (roots : Set Word) (m m' : Machine) : Prop :=
  ∀ r ∈ roots, ∀ k : PageKey, k.InUserSlot → view m'.memory r k = view m.memory r k

section Grows
variable {r : Word}

theorem Grows.refl (roots : Set Word) (r : Word) (m : Machine) : Grows roots r m m :=
  ⟨rfl, rfl, rfl, rfl, fun _ _ _ => rfl, rfl, fun _ _ _ h => h⟩

theorem Grows.trans (h : Grows roots r m m') (h' : Grows roots r m' m'') : Grows roots r m m'' where
  kernelRoot := h'.kernelRoot.trans h.kernelRoot
  nxeEnabled := h'.nxeEnabled.trans h.nxeEnabled
  managed := h'.managed.trans h.managed
  releases := h'.releases.trans h.releases
  others r' hr' hne := (h'.others r' hr' hne).trans (h.others r' hr' hne)
  ledger := h'.ledger.trans h.ledger
  nodes path p hpath hp := h'.nodes path p hpath (h.nodes path p hpath hp)

theorem SameViews.refl (roots : Set Word) (m : Machine) : SameViews roots m m := fun _ _ _ _ => rfl

theorem SameViews.trans (h : SameViews roots m m') (h' : SameViews roots m' m'') :
    SameViews roots m m'' := fun r hr k hk => (h' r hr k hk).trans (h r hr k hk)

end Grows

section Child

def attach (m : Machine) (allocator : Allocator) (p : Word) (i : Index) (c : Word) : Machine :=
  { m with
    allocator := allocator
    memory := store (Function.update m.memory c fun _ => 0#64) p i (tableEntry c) }

theorem child_present {p : Word} {i : Index} (h : has (m.memory p i) pagePresent = true) :
    m.child p i = (link (m.memory p i), m) := by
  unfold child link
  rw [if_pos h, h, Bool.true_and]
  cases has (m.memory p i) pageHuge <;> rfl

theorem child_absent {p : Word} {i : Index} (h : has (m.memory p i) pagePresent = false) :
    m.child p i = (none, m) ∨ ∃ c allocator, m.child p i = (some c, attach m allocator p i c) ∧
      c ∈ m.allocator.free ∧ allocator.free = m.allocator.free \ {c} ∧
      allocator.managed = m.allocator.managed ∧ allocator.releases = m.allocator.releases := by
  have habsent : ¬ has (m.memory p i) pagePresent = true := by
    rw [h]
    decide
  unfold child allocateTable Machine.allocatePage
  rw [if_neg habsent]
  rcases m.allocator.allocatePage_cases with hnone | ⟨c, allocator, hsome, hfree, hleft, hsame⟩
  · rw [hnone]
    exact Or.inl rfl
  · rw [hsome]
    exact Or.inr ⟨c, allocator, rfl, hfree, hleft, hsame⟩

variable {r p c : Word} {path : List Index} {i : Index} {allocator : Allocator}

theorem node_attach (h : Shaped m roots kernel reference) (hr : r ∈ roots)
    (hpath : UserPath (path ++ [i])) (hp : node m.memory r path = some p)
    (hempty : m.memory p i = 0#64) (hc : c ∈ m.allocator.free) {r' : Word} {path' : List Index}
    (hr' : r' ∈ roots) (hpath' : UserPath path') :
    node (attach m allocator p i c).memory r' path' =
      if r' = r ∧ path' = path ++ [i] then some c else node m.memory r' path' := by
  have hmask := Allocator.managed_mask (Allocator.free_subset_managed hc)
  have hnew : (userPaths roots).belongs r (path ++ [i]) := ⟨hr, hpath⟩
  have hbelongs : (userPaths roots).belongs r' path' := ⟨hr', hpath'⟩
  exact follow_attach h.unshared hnew hp (by rw [hempty]; exact link_zero) (h.fresh hc)
    (link_tableEntry hmask) (fun _ => link_zero) hbelongs

theorem attach_entry {q : Word} {j : Index} (hc : q ≠ c) (hi : q = p → j ≠ i) :
    (attach m allocator p i c).memory q j = m.memory q j := by
  dsimp only [attach]
  rw [store_of_ne hi, Function.update_of_ne hc]

theorem attach_blank (hpc : p ≠ c) (j : Index) : (attach m allocator p i c).memory c j = 0#64 := by
  dsimp only [attach]
  rw [store_of_ne fun h => absurd h.symm hpc, Function.update_self]

theorem attach_link : (attach m allocator p i c).memory p i = tableEntry c := by
  dsimp only [attach]
  rw [store_self]

theorem Shaped.ne_of_free (h : Shaped m roots kernel reference) (hr : r ∈ roots) (hpath : UserPath path)
    (hp : node m.memory r path = some p) (hc : c ∈ m.allocator.free) : p ≠ c := by
  rintro rfl
  exact (h.taken r hr p ⟨path, hpath, hp⟩).2.1 hc

theorem Shaped.path_inj (h : Shaped m roots kernel reference) (hr : r ∈ roots) (hpath : UserPath path)
    (hp : node m.memory r path = some p) {r' : Word} {path' : List Index} (hr' : r' ∈ roots)
    (hpath' : UserPath path') (hp' : node m.memory r' path' = some p) : r' = r ∧ path' = path := by
  have hbelongs : (userPaths roots).belongs r path := ⟨hr, hpath⟩
  have hbelongs' : (userPaths roots).belongs r' path' := ⟨hr', hpath'⟩
  exact h.unshared hbelongs' hbelongs hp' hp

theorem UserPath.length_lt (h : UserPath (path ++ [i])) : path.length < 3 := by
  have hlength := h.1
  rw [List.length_append, List.length_singleton] at hlength
  omega

theorem node_of_empty (hp : node m.memory r path = some p) (hempty : m.memory p i = 0#64) :
    node m.memory r (path ++ [i]) = none := by
  unfold node at hp ⊢
  rw [follow_concat, hp]
  show link (m.memory p i) = none
  rw [hempty]
  exact link_zero

theorem attach_shaped (h : Shaped m roots kernel reference) (hr : r ∈ roots)
    (hpath : UserPath (path ++ [i])) (hp : node m.memory r path = some p)
    (hempty : m.memory p i = 0#64) (hc : c ∈ m.allocator.free)
    (hfree : allocator.free = m.allocator.free \ {c})
    (hmanaged : allocator.managed = m.allocator.managed) :
    Shaped (attach m allocator p i c) roots kernel reference := by
  have hmask := Allocator.managed_mask (Allocator.free_subset_managed hc)
  have hpc : p ≠ c := h.ne_of_free hr hpath.initial hp hc
  have hnew : (userPaths roots).belongs r (path ++ [i]) := ⟨hr, hpath⟩
  -- A table of the new trees is the new one, or it was there.
  have hcases : ∀ {r' path' q}, r' ∈ roots → UserPath path' →
      node (attach m allocator p i c).memory r' path' = some q →
      q = c ∨ node m.memory r' path' = some q ∧ q ≠ c := by
    intro r' path' q hr' hpath' hq
    rw [node_attach h hr hpath hp hempty hc hr' hpath'] at hq
    by_cases hat : r' = r ∧ path' = path ++ [i]
    · rw [if_pos hat] at hq
      exact Or.inl (Option.some.inj hq).symm
    · rw [if_neg hat] at hq
      exact Or.inr ⟨hq, h.ne_of_free hr' hpath' hq hc⟩
  constructor
  case unshared =>
    exact Unshared.attach h.unshared hnew hp (by rw [hempty]; exact link_zero) (h.fresh hc)
      (link_tableEntry hmask) fun _ => link_zero
  -- the new table has left the free pages
  case taken =>
    rintro r' hr' q ⟨path', hpath', hq⟩
    show q ∈ allocator.managed ∧ q ∉ allocator.free ∧ q ∉ kernel
    rw [hfree, hmanaged]
    rcases hcases hr' hpath' hq with rfl | ⟨hq, -⟩
    · exact ⟨Allocator.free_subset_managed hc, fun hmem => hmem.2 rfl, h.free_not_kernel hc⟩
    · obtain ⟨hm, hf, hk⟩ := h.taken r' hr' q ⟨path', hpath', hq⟩
      exact ⟨hm, fun hmem => hf hmem.1, hk⟩
  case inner =>
    intro r' hr' path' j q hpath' hq
    show _ ∨ ∃ d ∈ allocator.managed, _
    rw [hmanaged]
    rcases hcases hr' hpath'.initial hq with rfl | ⟨hq, hqc⟩
    · exact Or.inl (attach_blank hpc j)
    · by_cases hat : q = p ∧ j = i
      · obtain ⟨rfl, rfl⟩ := hat
        exact Or.inr ⟨c, Allocator.free_subset_managed hc, attach_link⟩
      · rw [attach_entry hqc fun hqp hj => hat ⟨hqp, hj⟩]
        exact h.inner r' hr' path' j q hpath' hq
  case leaf =>
    intro r' hr' path' q hpath' hlength hq j
    rcases hcases hr' hpath' hq with rfl | ⟨hold, hqc⟩
    · exact Or.inl (attach_blank hpc j)
    · -- The table that `child` writes is not at the last level.
      have hqp : q ≠ p := by
        rintro rfl
        obtain ⟨-, rfl⟩ := h.path_inj hr hpath.initial hp hr' hpath' hold
        exact absurd hlength hpath.length_lt.ne
      rw [attach_entry hqc fun heq => absurd heq hqp]
      exact h.leaf r' hr' path' q hpath' hlength hold j
  case shared =>
    intro r' hr' j himage hstack
    have hrc : r' ≠ c := h.ne_of_free hr' .nil rfl hc
    rw [attach_entry hrc]
    · exact h.shared r' hr' j himage hstack
    · rintro rfl rfl
      obtain ⟨-, rfl⟩ := h.path_inj hr hpath.initial hp hr' .nil rfl
      rcases hpath.2 j rfl with hslot | hslot
      · exact himage hslot
      · exact hstack hslot
  case kept =>
    intro q hq
    have hqc : q ≠ c := by
      rintro rfl
      exact h.free_not_kernel hc hq
    have hqp : q ≠ p := by
      rintro rfl
      exact (h.taken r hr q ⟨path, hpath.initial, hp⟩).2.2 hq
    show _ ∧ q ∉ allocator.free
    rw [hfree]
    refine ⟨?_, fun hmem => (h.kept q hq).2 hmem.1⟩
    rw [← (h.kept q hq).1]
    funext j
    exact attach_entry hqc fun heq => absurd heq hqp
  case root => exact h.root

theorem attach_views (h : Shaped m roots kernel reference) (hr : r ∈ roots)
    (hpath : UserPath (path ++ [i])) (hp : node m.memory r path = some p)
    (hempty : m.memory p i = 0#64) (hc : c ∈ m.allocator.free) :
    SameViews roots m (attach m allocator p i c) := by
  have hpc : p ≠ c := h.ne_of_free hr hpath.initial hp hc
  intro r' hr' k hk
  unfold view
  rw [node_attach h hr hpath hp hempty hc hr' (PageKey.userPath hk)]
  by_cases hat : r' = r ∧ k.path = path ++ [i]
  · rw [if_pos hat, hat.1, hat.2, node_of_empty hp hempty]
    show (if (attach m allocator p i c).memory c k.pt = 0#64 then none else _) = none
    rw [if_pos (attach_blank hpc k.pt)]
  · rw [if_neg hat]
    cases hq : node m.memory r' k.path with
    | none => rfl
    | some q =>
      have hqp : q ≠ p := by
        rintro rfl
        obtain ⟨-, hpaths⟩ := h.path_inj hr hpath.initial hp hr' (PageKey.userPath hk) hq
        have hlength := hpath.length_lt
        rw [← hpaths] at hlength
        exact absurd hlength (lt_irrefl 3)
      show (if (attach m allocator p i c).memory q k.pt = 0#64 then none else _) = _
      rw [attach_entry (h.ne_of_free hr' (PageKey.userPath hk) hq hc) fun heq => absurd heq hqp]
      rfl

theorem attach_grows (h : Shaped m roots kernel reference) (hr : r ∈ roots)
    (hpath : UserPath (path ++ [i])) (hp : node m.memory r path = some p)
    (hempty : m.memory p i = 0#64) (hc : c ∈ m.allocator.free)
    (hfree : allocator.free = m.allocator.free \ {c})
    (hmanaged : allocator.managed = m.allocator.managed)
    (hreleases : allocator.releases = m.allocator.releases) :
    Grows roots r m (attach m allocator p i c) := by
  have hbefore := node_of_empty hp hempty
  have hnode : ∀ {r' path'}, r' ∈ roots → UserPath path' → node (attach m allocator p i c).memory r' path' =
      if r' = r ∧ path' = path ++ [i] then some c else node m.memory r' path' :=
    fun hr' hpath' => node_attach h hr hpath hp hempty hc hr' hpath'
  constructor
  case kernelRoot => rfl
  case nxeEnabled => rfl
  case managed => exact hmanaged
  case releases => exact hreleases
  case others =>
    intro r' hr' hne
    ext q
    constructor
    · rintro ⟨path', hpath', hq⟩
      rw [hnode hr' hpath', if_neg fun hat => hne hat.1] at hq
      exact ⟨path', hpath', hq⟩
    · rintro ⟨path', hpath', hq⟩
      refine ⟨path', hpath', ?_⟩
      rw [hnode hr' hpath', if_neg fun hat => hne hat.1]
      exact hq
  case nodes =>
    intro path' q hpath' hq
    rw [hnode hr hpath', if_neg]
    · exact hq
    · rintro ⟨-, rfl⟩
      rw [hbefore] at hq
      cases hq
  case ledger =>
    have hheld : held (attach m allocator p i c).memory r = insert c (held m.memory r) := by
      ext q
      constructor
      · rintro ⟨path', hpath', hq⟩
        rw [hnode hr hpath'] at hq
        by_cases hat : r = r ∧ path' = path ++ [i]
        · rw [if_pos hat] at hq
          exact Or.inl (Option.some.inj hq).symm
        · rw [if_neg hat] at hq
          exact Or.inr ⟨path', hpath', hq⟩
      · rintro (rfl | ⟨path', hpath', hq⟩)
        · exact ⟨path ++ [i], hpath, by rw [hnode hr hpath, if_pos ⟨rfl, rfl⟩]⟩
        · refine ⟨path', hpath', ?_⟩
          rw [hnode hr hpath', if_neg]
          · exact hq
          · rintro ⟨-, rfl⟩
            rw [hbefore] at hq
            cases hq
    show allocator.free ∪ _ = _
    rw [hfree, hheld, Set.union_insert, ← Set.insert_union, Set.insert_sdiff_singleton,
      Set.insert_eq_of_mem hc]

theorem child_spec (h : Shaped m roots kernel reference) (hr : r ∈ roots)
    (hpath : UserPath (path ++ [i])) (hp : node m.memory r path = some p) :
    Shaped (m.child p i).2 roots kernel reference ∧ Grows roots r m (m.child p i).2 ∧
      SameViews roots m (m.child p i).2 ∧
      ∀ c, (m.child p i).1 = some c → node (m.child p i).2.memory r (path ++ [i]) = some c := by
  by_cases hpresent : has (m.memory p i) pagePresent = true
  · rw [child_present hpresent]
    refine ⟨h, .refl roots r m, .refl roots m, ?_⟩
    intro c hc
    unfold node at hp ⊢
    rw [follow_concat, hp]
    exact hc
  · rw [Bool.not_eq_true] at hpresent
    have hempty : m.memory p i = 0#64 := by
      rcases h.inner r hr path i p hpath hp with hzero | ⟨c, hc, hentry⟩
      · exact hzero
      · rw [hentry, (tableEntry_has (Allocator.managed_mask hc)).1] at hpresent
        cases hpresent
    rcases child_absent hpresent with hnone | ⟨c, allocator, hsome, hc, hfree, hmanaged, hreleases⟩
    · rw [hnone]
      exact ⟨h, .refl roots r m, .refl roots m, fun c hc => by cases hc⟩
    · rw [hsome]
      refine ⟨attach_shaped h hr hpath hp hempty hc hfree hmanaged,
        attach_grows h hr hpath hp hempty hc hfree hmanaged hreleases,
        attach_views h hr hpath hp hempty hc, ?_⟩
      intro d hd
      obtain rfl : c = d := Option.some.inj hd
      rw [node_attach h hr hpath hp hempty hc hr hpath, if_pos ⟨rfl, rfl⟩]

end Child

section Mapping
variable {r pt : Word} {k : PageKey}

def writeLeaf (m : Machine) (pt : Word) (i : Index) (l : Leaf) : Machine := m.writeEntry pt i l.entry

theorem node_writeLeaf (h : Shaped m roots kernel reference) (hr : r ∈ roots) (hk : k.InUserSlot)
    (hpt : node m.memory r k.path = some pt) (i : Index) (l : Leaf) {r' : Word} {path' : List Index}
    (hr' : r' ∈ roots) (hpath' : UserPath path') :
    node (writeLeaf m pt i l).memory r' path' = node m.memory r' path' := by
  have hbelongs : (userPaths roots).belongs r k.path := ⟨hr, PageKey.userPath hk⟩
  have hbelongs' : (userPaths roots).belongs r' path' := ⟨hr', hpath'⟩
  have hleaf : ¬ (userPaths roots).belongs r (k.path ++ [i]) := by
    rintro ⟨-, hlong⟩
    exact absurd hlong.length_lt (lt_irrefl 3)
  exact follow_store_leaf h.unshared hbelongs hpt hleaf l.entry hbelongs'

theorem writeLeaf_entry {q : Word} {i j : Index} {l : Leaf} (h : q = pt → j ≠ i) :
    (writeLeaf m pt i l).memory q j = m.memory q j := store_of_ne h

theorem Shaped.ne_of_length (h : Shaped m roots kernel reference) (hr : r ∈ roots) (hk : k.InUserSlot)
    (hpt : node m.memory r k.path = some pt) {r' q : Word} {path' : List Index} (hr' : r' ∈ roots)
    (hpath' : UserPath path') (hlength : path'.length < 3) (hq : node m.memory r' path' = some q) :
    q ≠ pt := by
  -- a table of the last level is on no shorter path
  rintro rfl
  obtain ⟨-, rfl⟩ := h.path_inj hr (PageKey.userPath hk) hpt hr' hpath' hq
  exact absurd hlength (lt_irrefl 3)

theorem writeLeaf_shaped (h : Shaped m roots kernel reference) (hr : r ∈ roots) (hk : k.InUserSlot)
    (hpt : node m.memory r k.path = some pt) (i : Index) (l : Leaf) :
    Shaped (writeLeaf m pt i l) roots kernel reference := by
  have hnode : ∀ {r' path'}, r' ∈ roots → UserPath path' →
      node (writeLeaf m pt i l).memory r' path' = node m.memory r' path' :=
    fun hr' hpath' => node_writeLeaf h hr hk hpt i l hr' hpath'
  constructor
  case unshared => exact Unshared.congr h.unshared fun r' path' hpath' => hnode hpath'.1 hpath'.2
  case taken =>
    rintro r' hr' q ⟨path', hpath', hq⟩
    rw [hnode hr' hpath'] at hq
    exact h.taken r' hr' q ⟨path', hpath', hq⟩
  case inner =>
    intro r' hr' path' j q hpath' hq
    rw [hnode hr' hpath'.initial] at hq
    have hqp := h.ne_of_length hr hk hpt hr' hpath'.initial hpath'.length_lt hq
    rw [writeLeaf_entry fun heq => absurd heq hqp]
    exact h.inner r' hr' path' j q hpath' hq
  case leaf =>
    intro r' hr' path' q hpath' hlength hq j
    rw [hnode hr' hpath'] at hq
    by_cases hat : q = pt ∧ j = i
    · obtain ⟨rfl, rfl⟩ := hat
      exact Or.inr ⟨l, store_self _ _ _ _⟩
    · rw [writeLeaf_entry fun hqp hj => hat ⟨hqp, hj⟩]
      exact h.leaf r' hr' path' q hpath' hlength hq j
  case shared =>
    intro r' hr' j himage hstack
    have hqp := h.ne_of_length hr hk hpt hr' .nil (by decide) rfl
    rw [writeLeaf_entry fun heq => absurd heq hqp]
    exact h.shared r' hr' j himage hstack
  case kept =>
    intro q hq
    have hqp : q ≠ pt := by
      rintro rfl
      exact (h.taken r hr q ⟨k.path, PageKey.userPath hk, hpt⟩).2.2 hq
    refine ⟨?_, (h.kept q hq).2⟩
    rw [← (h.kept q hq).1]
    funext j
    exact writeLeaf_entry fun heq => absurd heq hqp
  case root => exact h.root

theorem writeLeaf_grows (h : Shaped m roots kernel reference) (hr : r ∈ roots) (hk : k.InUserSlot)
    (hpt : node m.memory r k.path = some pt) (i : Index) (l : Leaf) :
    Grows roots r m (writeLeaf m pt i l) := by
  have hnode : ∀ {r' path'}, r' ∈ roots → UserPath path' →
      node (writeLeaf m pt i l).memory r' path' = node m.memory r' path' :=
    fun hr' hpath' => node_writeLeaf h hr hk hpt i l hr' hpath'
  have hheld : ∀ r' ∈ roots, held (writeLeaf m pt i l).memory r' = held m.memory r' := by
    intro r' hr'
    ext q
    constructor
    · rintro ⟨path', hpath', hq⟩
      exact ⟨path', hpath', (hnode hr' hpath').symm.trans hq⟩
    · rintro ⟨path', hpath', hq⟩
      exact ⟨path', hpath', (hnode hr' hpath').trans hq⟩
  constructor
  case kernelRoot => rfl
  case nxeEnabled => rfl
  case managed => rfl
  case releases => rfl
  case others => exact fun r' hr' _ => hheld r' hr'
  case ledger =>
    rw [hheld r hr]
    rfl
  case nodes => exact fun path' q hpath' hq => (hnode hr hpath').trans hq

def Maps (roots : Set Word) (r : Word) (k : PageKey) (l : Leaf) (m m' : Machine) : Prop :=
  view m.memory r k = none ∧ ∀ r' ∈ roots, ∀ k' : PageKey, k'.InUserSlot →
    view m'.memory r' k' = if r' = r ∧ k' = k then some l.entry else view m.memory r' k'

theorem writeLeaf_maps (h : Shaped m roots kernel reference) (hr : r ∈ roots) (hk : k.InUserSlot)
    (hpt : node m.memory r k.path = some pt) (hempty : m.memory pt k.pt = 0#64) (l : Leaf) :
    Maps roots r k l m (writeLeaf m pt k.pt l) := by
  constructor
  · unfold view
    rw [hpt]
    exact if_pos hempty
  · intro r' hr' k' hk'
    unfold view
    rw [node_writeLeaf h hr hk hpt k.pt l hr' (PageKey.userPath hk')]
    by_cases hat : r' = r ∧ k' = k
    · obtain ⟨rfl, rfl⟩ := hat
      have hwritten : (writeLeaf m pt k'.pt l).memory pt k'.pt = l.entry := store_self _ _ _ _
      rw [if_pos ⟨rfl, rfl⟩, hpt]
      show (if (writeLeaf m pt k'.pt l).memory pt k'.pt = 0#64 then none else some _) = some l.entry
      rw [hwritten, if_neg l.entry_ne_zero]
    · rw [if_neg hat]
      cases hq : node m.memory r' k'.path with
      | none => rfl
      | some q =>
        show (if (writeLeaf m pt k.pt l).memory q k'.pt = 0#64 then none else some _) = _
        rw [writeLeaf_entry]
        · rfl
        · rintro rfl hlast
          obtain ⟨hrr, hpaths⟩ := h.path_inj hr (PageKey.userPath hk) hpt hr' (PageKey.userPath hk') hq
          apply hat
          obtain ⟨a, b, c, d⟩ := k
          obtain ⟨a', b', c', d'⟩ := k'
          simp only [PageKey.path, List.cons.injEq, and_true] at hpaths
          obtain ⟨rfl, rfl, rfl⟩ := hpaths
          exact ⟨hrr, by rw [show d' = d from hlast]⟩

theorem SameViews.maps {l : Leaf} (hr : r ∈ roots) (hk : k.InUserSlot) (h : SameViews roots m m')
    (h' : Maps roots r k l m' m'') : Maps roots r k l m m'' := by
  refine ⟨(h r hr k hk).symm.trans h'.1, ?_⟩
  intro r' hr' k' hk'
  rw [h'.2 r' hr' k' hk', h r' hr' k' hk']

theorem writePte_spec (h : Shaped m roots kernel reference) (hr : r ∈ roots) {va physical : Word}
    (hk : (pageKey va).InUserSlot) (hpt : node m.memory r (pageKey va).path = some pt)
    (writable executable : Bool) :
    m.writePte pt va physical (leafFlags writable executable) = (false, m) ∨
      ∃ m', m.writePte pt va physical (leafFlags writable executable) = (true, m') ∧
        Shaped m' roots kernel reference ∧ Grows roots r m m' ∧
        Maps roots r (pageKey va) ⟨physical, writable, executable⟩ m m' := by
  unfold writePte
  by_cases hpresent : has (m.memory pt (ptIndex va)) pagePresent = true
  · rw [if_pos hpresent]
    exact Or.inl rfl
  · have hempty : m.memory pt (ptIndex va) = 0#64 := by
      rcases h.leaf r hr _ pt (PageKey.userPath hk) rfl hpt (ptIndex va) with hzero | ⟨l, hl⟩
      · exact hzero
      · rw [hl] at hpresent
        exact absurd l.entry_has.1 hpresent
    rw [if_neg hpresent]
    let l : Leaf := ⟨physical, writable, executable⟩
    exact Or.inr ⟨writeLeaf m pt (ptIndex va) l, rfl, writeLeaf_shaped h hr hk hpt _ l,
      writeLeaf_grows h hr hk hpt _ l, writeLeaf_maps h hr hk hpt hempty l⟩

/-- Either no mapping changes, or this page of this space is mapped and nothing else. -/
structure Outcome (roots kernel : Set Word) (reference : PhysicalMemory) (r : Word) (k : PageKey)
    (l : Leaf) (m : Machine) (result : Bool × Machine) : Prop where
  shaped : Shaped result.2 roots kernel reference
  grows : Grows roots r m result.2
  views : if result.1 then Maps roots r k l m result.2 else SameViews roots m result.2

section Outcome
variable {l : Leaf} {result : Bool × Machine}

theorem Outcome.failed (h : Shaped m' roots kernel reference) (hgrows : Grows roots r m m')
    (hviews : SameViews roots m m') : Outcome roots kernel reference r k l m (false, m') :=
  ⟨h, hgrows, hviews⟩

theorem Outcome.after (hr : r ∈ roots) (hk : k.InUserSlot) (hgrows : Grows roots r m m')
    (hviews : SameViews roots m m') (h : Outcome roots kernel reference r k l m' result) :
    Outcome roots kernel reference r k l m result := by
  obtain ⟨shaped, grows, views⟩ := h
  refine ⟨shaped, hgrows.trans grows, ?_⟩
  cases hresult : result.1 with
  | true =>
    rw [hresult] at views
    exact hviews.maps hr hk views
  | false =>
    rw [hresult] at views
    exact hviews.trans views

end Outcome

theorem makeUserPageFlags_some {writable executable nxeEnabled : Bool} {flags : Word}
    (h : makeUserPageFlags writable executable nxeEnabled = some flags) :
    flags = leafFlags writable executable := by
  unfold makeUserPageFlags at h
  split at h
  · cases h
  · exact (Option.some.inj h).symm

/-- `map_user_page` of a page under a user slot. -/
theorem mapUserPage_spec (h : Shaped m roots kernel reference) (hr : r ∈ roots) {va : Word}
    (hk : (pageKey va).InUserSlot) (physical : Word) (writable executable : Bool) :
    Outcome roots kernel reference r (pageKey va) ⟨physical, writable, executable⟩ m
      (m.mapUserPage r va physical writable executable) := by
  have hpath : UserPath [pml4Index va, pdptIndex va, pdIndex va] := PageKey.userPath hk
  have hpath₂ : UserPath [pml4Index va, pdptIndex va] := UserPath.initial (i := pdIndex va) hpath
  have hpath₁ : UserPath [pml4Index va] := UserPath.initial (i := pdptIndex va) hpath₂
  unfold mapUserPage
  split
  · exact .failed h (.refl roots r m) (.refl roots m)
  · cases hflags : makeUserPageFlags writable executable m.nxeEnabled with
    | none => exact .failed h (.refl roots r m) (.refl roots m)
    | some flags =>
      obtain rfl := makeUserPageFlags_some hflags
      -- Each level is one `child`; what the rest does is said of the machine it leaves.
      have hroot : node m.memory r [] = some r := rfl
      have step₁ := child_spec h hr hpath₁ hroot
      generalize m.child r (pml4Index va) = result₁ at step₁
      obtain ⟨found₁, m₁⟩ := result₁
      obtain ⟨h₁, hgrows₁, hviews₁, hnode₁⟩ := step₁
      cases found₁ with
      | none => exact .failed h₁ hgrows₁ hviews₁
      | some pdpt =>
        apply Outcome.after hr hk hgrows₁ hviews₁
        have step₂ := child_spec h₁ hr hpath₂ (hnode₁ pdpt rfl)
        dsimp only
        generalize m₁.child pdpt (pdptIndex va) = result₂ at step₂
        obtain ⟨found₂, m₂⟩ := result₂
        obtain ⟨h₂, hgrows₂, hviews₂, hnode₂⟩ := step₂
        cases found₂ with
        | none => exact .failed h₂ hgrows₂ hviews₂
        | some pd =>
          apply Outcome.after hr hk hgrows₂ hviews₂
          have step₃ := child_spec h₂ hr hpath (hnode₂ pd rfl)
          dsimp only
          generalize m₂.child pd (pdIndex va) = result₃ at step₃
          obtain ⟨found₃, m₃⟩ := result₃
          obtain ⟨h₃, hgrows₃, hviews₃, hnode₃⟩ := step₃
          cases found₃ with
          | none => exact .failed h₃ hgrows₃ hviews₃
          | some pt =>
            apply Outcome.after hr hk hgrows₃ hviews₃
            dsimp only
            rcases writePte_spec h₃ hr hk (hnode₃ pt rfl) writable executable with
              hfailed | ⟨m', hwritten, hshaped, hgrows, hmaps⟩
            · rw [hfailed]
              exact .failed h₃ (.refl roots r m₃) (.refl roots m₃)
            · rw [hwritten]
              exact ⟨hshaped, hgrows, hmaps⟩

theorem mapUserPage_checked {va physical : Word} {writable executable : Bool}
    (h : (m.mapUserPage r va physical writable executable).1 = true) :
    isPageAligned va = true ∧ isPageAligned physical = true := by
  unfold mapUserPage at h
  split at h
  · cases h
  · rename_i hguard
    simp only [not_or, Bool.not_eq_true', Bool.not_eq_false] at hguard
    exact ⟨hguard.2.1, hguard.2.2.1⟩

end Mapping

section Written
variable {r p q : Word} {path : List Index} {i : Index}

/-- The page is neither free nor a table of the space, and a step keeps what it holds. -/
def Untouched (r q : Word) (m m' : Machine) : Prop :=
  q ∉ m'.allocator.free ∪ held m'.memory r ∧ m'.memory q = m.memory q

theorem Untouched.trans (h : Untouched r q m m') (h' : Untouched r q m' m'') : Untouched r q m m'' :=
  ⟨h'.1, h'.2.trans h.2⟩

theorem child_untouched (h : Shaped m roots kernel reference) (hr : r ∈ roots) (hpath : UserPath (path ++ [i]))
    (hp : node m.memory r path = some p) (hq : q ∉ m.allocator.free ∪ held m.memory r) :
    Untouched r q m (m.child p i).2 := by
  have hgrows := (child_spec h hr hpath hp).2.1
  refine ⟨by rw [hgrows.ledger]; exact hq, ?_⟩
  by_cases hpresent : has (m.memory p i) pagePresent = true
  · rw [child_present hpresent]
  · rcases child_absent (Bool.not_eq_true _ ▸ hpresent) with hnone | ⟨c, allocator, hsome, hc, -⟩
    · rw [hnone]
    · have hqc : q ≠ c := fun heq => hq (Or.inl (heq ▸ hc))
      have hqp : q ≠ p := fun heq => hq (Or.inr (heq ▸ ⟨path, hpath.initial, hp⟩))
      rw [hsome]
      funext j
      exact attach_entry hqc fun heq => absurd heq hqp

theorem writePte_untouched {pt va physical flags : Word} (hpt : pt ∈ held m.memory r)
    (hq : q ∉ m.allocator.free ∪ held m.memory r) : (m.writePte pt va physical flags).2.memory q = m.memory q := by
  have hqp : q ≠ pt := fun heq => hq (Or.inr (heq ▸ hpt))
  unfold writePte
  split
  · rfl
  · funext j
    exact store_of_ne fun heq => absurd heq hqp

theorem mapUserPage_memory (h : Shaped m roots kernel reference) (hr : r ∈ roots) {va : Word}
    (hk : (pageKey va).InUserSlot) (physical : Word) (writable executable : Bool)
    (hq : q ∉ m.allocator.free ∪ held m.memory r) :
    (m.mapUserPage r va physical writable executable).2.memory q = m.memory q := by
  have hpath : UserPath [pml4Index va, pdptIndex va, pdIndex va] := PageKey.userPath hk
  have hpath₂ : UserPath [pml4Index va, pdptIndex va] := UserPath.initial (i := pdIndex va) hpath
  have hpath₁ : UserPath [pml4Index va] := UserPath.initial (i := pdptIndex va) hpath₂
  have hroot : node m.memory r [] = some r := rfl
  unfold mapUserPage
  split
  · rfl
  split
  · rfl
  have step₁ := child_spec h hr hpath₁ hroot
  have keep₁ := child_untouched h hr hpath₁ hroot hq
  generalize m.child r (pml4Index va) = result₁ at step₁ keep₁
  obtain ⟨found₁, m₁⟩ := result₁
  obtain ⟨h₁, -, -, hnode₁⟩ := step₁
  cases found₁ with
  | none => exact keep₁.2
  | some pdpt =>
    have step₂ := child_spec h₁ hr hpath₂ (hnode₁ pdpt rfl)
    have keep₂ := keep₁.trans (child_untouched h₁ hr hpath₂ (hnode₁ pdpt rfl) keep₁.1)
    dsimp only
    generalize m₁.child pdpt (pdptIndex va) = result₂ at step₂ keep₂
    obtain ⟨found₂, m₂⟩ := result₂
    obtain ⟨h₂, -, -, hnode₂⟩ := step₂
    cases found₂ with
    | none => exact keep₂.2
    | some pd =>
      have step₃ := child_spec h₂ hr hpath (hnode₂ pd rfl)
      have keep₃ := keep₂.trans (child_untouched h₂ hr hpath (hnode₂ pd rfl) keep₂.1)
      dsimp only
      generalize m₂.child pd (pdIndex va) = result₃ at step₃ keep₃
      obtain ⟨found₃, m₃⟩ := result₃
      obtain ⟨h₃, -, -, hnode₃⟩ := step₃
      cases found₃ with
      | none => exact keep₃.2
      | some pt => exact (writePte_untouched ⟨_, hpath, hnode₃ pt rfl⟩ keep₃.1).trans keep₃.2

end Written

end Linux95.Memory
