import Linux95.Memory.KernelTree

/-! What `map_page` builds over the tables that it finds, and `unmap_page` takes away again. -/

namespace Linux95.Memory
open Base LinkedTables

/-- The tables of a machine over those of a base: pages of the allocator have become tables or have come back, the
entries of the base are there, and the rest of memory is as it was. -/
structure Over (base m : Machine) : Prop where
  tree : KernelTree m
  kernelRoot : m.kernelRoot = base.kernelRoot
  nxeEnabled : m.nxeEnabled = base.nxeEnabled
  managed : m.allocator.managed = base.allocator.managed
  pages : SamePages base m
  overlay : Overlay pageFormat 3 base.entries m.entries
  kept : ∀ p j, p ∉ base.allocator.free →
    (∀ path, path.length ≤ 3 → base.table path = some p → base.entries path j ≠ none) → m.memory p j = base.memory p j
  zeroed : ∀ path p j, path.length ≤ 3 → base.table path = some p → base.entries path j = none →
    m.entries path j = none → m.memory p j = base.memory p j ∨ m.memory p j = 0#64

variable {base m m' : Machine} {path : List Index} {i j : Index} {p q c w : Word} {x : Option Word}

namespace Over

theorem refl (h : KernelTree m) : Over m m :=
  ⟨h, rfl, rfl, rfl, rfl, Overlay.refl pageFormat 3 m.entries, fun _ _ _ _ => rfl, fun _ _ _ _ _ _ _ => Or.inl rfl⟩

theorem rootPhysical (h : Over base m) : m.rootPhysical = base.rootPhysical :=
  Machine.rootPhysical_congr h.kernelRoot

theorem table (h : Over base m) (hpath : path.length ≤ 3) (hp : base.table path = some p) : m.table path = some p := by
  induction path using List.reverseRecOn generalizing p with
  | nil =>
    rw [table_nil] at hp ⊢
    rw [h.rootPhysical]
    exact hp
  | append_singleton path i ih =>
    have hpath' := le_of_concat hpath
    rw [table_concat hpath'] at hp ⊢
    obtain ⟨w, hw, hlink⟩ := Option.bind_eq_some_iff.mp hp
    rw [h.overlay.above path i w hw]
    exact hlink

theorem free_subset (h : Over base m) : m.allocator.free ⊆ base.allocator.free := by
  intro q hq
  have hmem : q ∈ base.allocator.free ∪ base.tables := h.pages ▸ Or.inl hq
  rcases hmem with hfree | ⟨path, hpath, htable⟩
  · exact hfree
  · exact absurd hq (h.tree.not_free hpath (h.table hpath htable))

theorem table_cases (h : Over base m) (hpath : path.length ≤ 3) (hp : m.table path = some p) :
    base.table path = some p ∨ base.table path = none ∧ p ∈ base.allocator.free := by
  -- a table of the base, or a page that was free there
  have hmem : p ∈ base.allocator.free ∪ base.tables := h.pages ▸ Or.inr ⟨path, hpath, hp⟩
  cases hbase : base.table path with
  | some q =>
    obtain rfl := Option.some.inj ((h.table hpath hbase).symm.trans hp)
    exact Or.inl rfl
  | none =>
    rcases hmem with hfree | ⟨path', hpath', htable⟩
    · exact Or.inr ⟨rfl, hfree⟩
    · obtain rfl := h.tree.path_inj hpath hpath' hp (h.table hpath' htable)
      rw [htable] at hbase
      cases hbase

theorem edit (h : Over base m) (hedit : Edit m m' path i x) (hpages : SamePages m m') (hpath : path.length ≤ 3)
    (hnone : base.entries path i = none) (hx : path.length < 3 → ∀ w, x = some w → ∃ c, link w = some c) :
    Over base m' := by
  refine ⟨hedit.tree, hedit.kernelRoot.trans h.kernelRoot, hedit.nxeEnabled.trans h.nxeEnabled,
    hedit.managed.trans h.managed, hpages.trans h.pages, ?_, ?_, ?_⟩
  · rw [hedit.entries]
    exact h.overlay.store hnone hx
  · intro q j hq hpresent
    rw [hedit.others q j fun hfree => hq (h.free_subset hfree)]
    · exact h.kept q j hq hpresent
    · rintro htable rfl
      rcases h.table_cases hpath htable with hbase | ⟨-, hfree⟩
      · exact hpresent path hpath hbase hnone
      · exact hq hfree
  · intro path' q j hpath' hq hbase hnow
    have htable := h.table hpath' hq
    by_cases hat : path' = path ∧ j = i
    · obtain ⟨rfl, rfl⟩ := hat
      rw [hedit.entries_self] at hnow
      exact Or.inr (hedit.zeroed q htable hnow)
    · rw [hedit.entries_of_ne fun hp hj => hat ⟨hp, hj⟩] at hnow
      rw [hedit.others q j (h.tree.not_free hpath' htable)]
      · exact h.zeroed path' q j hpath' hq hbase hnow
      · rintro htable' rfl
        exact hat ⟨h.tree.path_inj hpath hpath' htable' htable, rfl⟩

theorem trans (h : Over base m) (h' : Over m m') : Over base m' := by
  refine ⟨h'.tree, h'.kernelRoot.trans h.kernelRoot, h'.nxeEnabled.trans h.nxeEnabled, h'.managed.trans h.managed,
    h'.pages.trans h.pages, h.overlay.trans h'.overlay, ?_, ?_⟩
  · intro q j hq hpresent
    rw [h'.kept q j fun hfree => hq (h.free_subset hfree)]
    · exact h.kept q j hq hpresent
    · intro path hpath htable hnone
      rcases h.table_cases hpath htable with hbase | ⟨-, hfree⟩
      · exact hpresent path hpath hbase (h.overlay.base_none hnone)
      · exact hq hfree
  · intro path q j hpath hq hbase hnow
    have hbefore := h'.overlay.base_none hnow
    rcases h'.zeroed path q j hpath (h.table hpath hq) hbefore hnow with hsame | hzero
    · rw [hsame]
      exact h.zeroed path q j hpath hq hbase hbefore
    · exact Or.inr hzero

end Over

/-- The tables and the free pages are those of the base: every present entry is the same, an absent one is still absent
and was cleared at most, and everything else outside the free pages is as it was. -/
structure Restored (base m : Machine) : Prop where
  free : m.allocator.free = base.allocator.free
  table : ∀ path, path.length ≤ 3 → m.table path = base.table path
  entries : m.entries = base.entries
  memory : ∀ p j, p ∉ base.allocator.free → m.memory p j = base.memory p j ∨
    p ∈ base.tables ∧ has (base.memory p j) pagePresent = false ∧ m.memory p j = 0#64

theorem Over.restored (h : Over base m) (heq : m.entries = base.entries) (hbase : KernelTree base) : Restored base m := by
  have htable : ∀ path, path.length ≤ 3 → m.table path = base.table path := by
    intro path hpath
    induction path using List.reverseRecOn with
    | nil =>
      rw [table_nil, table_nil, h.rootPhysical]
    | append_singleton path i _ =>
      rw [table_concat (le_of_concat hpath), table_concat (le_of_concat hpath), heq]
  have htables : m.tables = base.tables := by
    ext q
    exact exists_congr fun path => and_congr_right fun hpath => by rw [htable path hpath]
  refine ⟨h.free_subset.antisymm ?_, htable, heq, ?_⟩
  · intro q hq
    have hmem : q ∈ m.allocator.free ∪ m.tables := h.pages ▸ Or.inl hq
    rcases hmem with hfree | hmem
    · exact hfree
    · rw [htables] at hmem
      exact absurd hq (hbase.taken q hmem)
  · intro q j hq
    by_cases habsent : ∃ path, path.length ≤ 3 ∧ base.table path = some q ∧ base.entries path j = none
    · obtain ⟨path, hpath, hpage, hnone⟩ := habsent
      have hnow : m.entries path j = none := by
        rw [heq]
        exact hnone
      rcases h.zeroed path q j hpath hpage hnone hnow with hsame | hzero
      · exact Or.inl hsame
      · exact Or.inr ⟨⟨path, hpath, hpage⟩, (entries_eq_none hpath hpage).mp hnone, hzero⟩
    · exact Or.inl (h.kept q j hq fun path hpath hpage hnone => habsent ⟨path, hpath, hpage, hnone⟩)

theorem Restored.memory_eq (h : Restored base m)
    (hzero : ∀ p ∈ base.tables, ∀ j, has (base.memory p j) pagePresent = false → base.memory p j = 0#64)
    (hp : p ∉ base.allocator.free) : m.memory p = base.memory p := by
  funext j
  rcases h.memory p j hp with hsame | ⟨htable, habsent, hnow⟩
  · exact hsame
  · rw [hnow, hzero p htable j habsent]

end Linux95.Memory
