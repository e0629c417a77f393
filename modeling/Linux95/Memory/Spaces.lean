import Linux95.Memory.TableSteps

/-! `create_user_address_space`, `destroy_user_address_space` and what `query_page` finds in the
trees. -/

namespace Linux95.Memory
open Base LinkedTables Machine

variable {m m' : Machine} {roots kernel : Set Word} {reference : PhysicalMemory}

section Pages
variable {c : Word} {page : Index → Word} {allocator : Allocator}

def fillPage (m : Machine) (allocator : Allocator) (c : Word) (page : Index → Word) : Machine :=
  { m with
    allocator := allocator
    memory := Function.update m.memory c page }

theorem node_fillPage (hfresh : ∀ r ∈ roots, c ∉ held m.memory r) {r : Word} {path : List Index}
    (hr : r ∈ roots) (hpath : UserPath path) :
    node (fillPage m allocator c page).memory r path = node m.memory r path := by
  have hbelongs : (userPaths roots).belongs r path := ⟨hr, hpath⟩
  apply follow_update_fresh _ page hbelongs
  rintro r' path' ⟨hr', hpath'⟩ hc
  exact hfresh r' hr' ⟨path', hpath', hc⟩

theorem held_fillPage (hfresh : ∀ r ∈ roots, c ∉ held m.memory r) {r : Word} (hr : r ∈ roots) :
    held (fillPage m allocator c page).memory r = held m.memory r := by
  ext q
  constructor
  · rintro ⟨path, hpath, hq⟩
    exact ⟨path, hpath, (node_fillPage hfresh hr hpath).symm.trans hq⟩
  · rintro ⟨path, hpath, hq⟩
    exact ⟨path, hpath, (node_fillPage hfresh hr hpath).trans hq⟩

theorem fillPage_of_ne {q : Word} (h : q ≠ c) : (fillPage m allocator c page).memory q = m.memory q := by
  dsimp only [fillPage]
  rw [Function.update_of_ne h]

theorem fillPage_self : (fillPage m allocator c page).memory c = page := by
  dsimp only [fillPage]
  rw [Function.update_self]

theorem fillPage_views (hfresh : ∀ r ∈ roots, c ∉ held m.memory r) :
    SameViews roots m (fillPage m allocator c page) := by
  intro r hr k hk
  unfold view
  rw [node_fillPage hfresh hr (PageKey.userPath hk)]
  cases hq : node m.memory r k.path with
  | none => rfl
  | some q =>
    have hne : q ≠ c := by
      rintro rfl
      exact hfresh r hr ⟨k.path, PageKey.userPath hk, hq⟩
    show (if (fillPage m allocator c page).memory q k.pt = 0#64 then none else _) = _
    rw [fillPage_of_ne hne]
    rfl

theorem fillPage_shaped (h : Shaped m roots kernel reference)
    (hfresh : ∀ r ∈ roots, c ∉ held m.memory r) (hkernel : c ∉ kernel)
    (hmanaged : allocator.managed = m.allocator.managed)
    (hfree : allocator.free ⊆ m.allocator.free) :
    Shaped (fillPage m allocator c page) roots kernel reference := by
  have hne : ∀ {r path q}, r ∈ roots → UserPath path → node m.memory r path = some q → q ≠ c := by
    rintro r path q hr hpath hq rfl
    exact hfresh r hr ⟨path, hpath, hq⟩
  constructor
  case unshared =>
    exact Unshared.congr h.unshared fun r path hpath => node_fillPage hfresh hpath.1 hpath.2
  case taken =>
    intro r hr q hq
    rw [held_fillPage hfresh hr] at hq
    obtain ⟨hm, hf, hk⟩ := h.taken r hr q hq
    exact ⟨hmanaged.symm ▸ hm, fun hmem => hf (hfree hmem), hk⟩
  case inner =>
    intro r hr path i q hpath hq
    rw [node_fillPage hfresh hr hpath.initial] at hq
    show _ ∨ ∃ d ∈ allocator.managed, _
    rw [fillPage_of_ne (hne hr hpath.initial hq), hmanaged]
    exact h.inner r hr path i q hpath hq
  case leaf =>
    intro r hr path q hpath hlength hq i
    rw [node_fillPage hfresh hr hpath] at hq
    rw [fillPage_of_ne (hne hr hpath hq)]
    exact h.leaf r hr path q hpath hlength hq i
  case shared =>
    intro r hr i himage hstack
    rw [fillPage_of_ne (hne hr .nil rfl)]
    exact h.shared r hr i himage hstack
  case kept =>
    intro q hq
    have hqc : q ≠ c := by
      rintro rfl
      exact hkernel hq
    rw [fillPage_of_ne hqc]
    exact ⟨(h.kept q hq).1, fun hmem => (h.kept q hq).2 (hfree hmem)⟩
  case root => exact h.root

theorem Shaped.withAllocator (h : Shaped m roots kernel reference)
    (hmanaged : allocator.managed = m.allocator.managed)
    (hfree : allocator.free ⊆ m.allocator.free) :
    Shaped { m with allocator := allocator } roots kernel reference := by
  constructor
  case unshared => exact h.unshared
  case taken =>
    intro r hr q hq
    obtain ⟨hm, hf, hk⟩ := h.taken r hr q hq
    exact ⟨hmanaged.symm ▸ hm, fun hmem => hf (hfree hmem), hk⟩
  case inner =>
    intro r hr path i q hpath hq
    show _ ∨ ∃ d ∈ allocator.managed, _
    rw [hmanaged]
    exact h.inner r hr path i q hpath hq
  case leaf => exact h.leaf
  case shared => exact h.shared
  case kept => exact fun q hq => ⟨(h.kept q hq).1, fun hmem => (h.kept q hq).2 (hfree hmem)⟩
  case root => exact h.root

end Pages

def Answered (S : Set Word) (m m' : Machine) : Prop :=
  ∃ log, m'.allocator.releases = m.allocator.releases ++ log ∧ ∀ e ∈ log, e.2 = true ∧ e.1 ∈ S

theorem Answered.of_eq (S : Set Word) (h : m'.allocator.releases = m.allocator.releases) :
    Answered S m m' :=
  ⟨[], by rw [List.append_nil, h], fun _ he => (nomatch he)⟩

theorem Answered.mono {S T : Set Word} (h : Answered S m m') (hsub : S ⊆ T) : Answered T m m' := by
  obtain ⟨log, heq, hlog⟩ := h
  exact ⟨log, heq, fun e he => ⟨(hlog e he).1, hsub (hlog e he).2⟩⟩

theorem Answered.trans {S : Set Word} {m'' : Machine} (h : Answered S m m') (h' : Answered S m' m'') :
    Answered S m m'' := by
  obtain ⟨log, heq, hlog⟩ := h
  obtain ⟨log', heq', hlog'⟩ := h'
  refine ⟨log ++ log', by rw [heq', heq, List.append_assoc], ?_⟩
  intro e he
  rcases List.mem_append.mp he with he | he
  · exact hlog e he
  · exact hlog' e he

structure Steady (roots : Set Word) (m m' : Machine) : Prop where
  kernelRoot : m'.kernelRoot = m.kernelRoot
  nxeEnabled : m'.nxeEnabled = m.nxeEnabled
  managed : m'.allocator.managed = m.allocator.managed
  answered : Answered m.allocator.free m m'
  views : SameViews roots m m'
  tables : ∀ r ∈ roots, held m'.memory r = held m.memory r

theorem Steady.refl (roots : Set Word) (m : Machine) : Steady roots m m :=
  ⟨rfl, rfl, rfl, .of_eq _ rfl, .refl roots m, fun _ _ => rfl⟩

section Create
variable {c : Word}

theorem node_of_empty_slots (himage : m.memory c imageSlot = 0#64) (hstack : m.memory c stackSlot = 0#64)
    {path : List Index} (hpath : UserPath path) {q : Word} (hq : node m.memory c path = some q) :
    path = [] ∧ q = c := by
  cases path with
  | nil => exact ⟨rfl, (Option.some.inj hq).symm⟩
  | cons i path =>
    have hzero : m.memory c i = 0#64 := by
      rcases hpath.2 i rfl with rfl | rfl
      · exact himage
      · exact hstack
    unfold node at hq
    rw [follow, hzero, link_zero] at hq
    cases hq

theorem unmapped_of_empty_slots (himage : m.memory c imageSlot = 0#64)
    (hstack : m.memory c stackSlot = 0#64) :
    held m.memory c = {c} ∧ ∀ k : PageKey, k.InUserSlot → view m.memory c k = none := by
  constructor
  · ext q
    constructor
    · rintro ⟨path, hpath, hq⟩
      exact (node_of_empty_slots himage hstack hpath hq).2
    · rintro rfl
      exact ⟨[], .nil, rfl⟩
  · intro k hk
    unfold view
    cases hq : node m.memory c k.path with
    | none => rfl
    | some q =>
      obtain ⟨hpath, -⟩ := node_of_empty_slots himage hstack (PageKey.userPath hk) hq
      exact absurd hpath (List.cons_ne_nil _ _)

theorem shaped_insert (h : Shaped m roots kernel reference) (hmanaged : c ∈ m.allocator.managed)
    (hused : c ∉ m.allocator.free) (hkernel : c ∉ kernel) (hfresh : ∀ r ∈ roots, c ∉ held m.memory r)
    (himage : m.memory c imageSlot = 0#64) (hstack : m.memory c stackSlot = 0#64)
    (hshared : ∀ i, i ≠ imageSlot → i ≠ stackSlot →
      m.memory c i = reference m.rootPhysical i &&& ~~~pageUser) :
    Shaped m (insert c roots) kernel reference := by
  have hnew : ∀ {path q}, UserPath path → node m.memory c path = some q → path = [] ∧ q = c :=
    fun hpath hq => node_of_empty_slots himage hstack hpath hq
  constructor
  case unshared =>
    rintro r path r' path' b ⟨hr, hpath⟩ ⟨hr', hpath'⟩ hb hb'
    rcases hr with rfl | hr <;> rcases hr' with rfl | hr'
    · exact ⟨rfl, (hnew hpath hb).1.trans (hnew hpath' hb').1.symm⟩
    · obtain ⟨-, rfl⟩ := hnew hpath hb
      exact absurd ⟨path', hpath', hb'⟩ (hfresh r' hr')
    · obtain ⟨-, rfl⟩ := hnew hpath' hb'
      exact absurd ⟨path, hpath, hb⟩ (hfresh r hr)
    · exact (h.path_inj hr' hpath' hb' hr hpath hb)
  case taken =>
    rintro r (rfl | hr) q hq
    · obtain ⟨path, hpath, hq⟩ := hq
      obtain ⟨-, rfl⟩ := hnew hpath hq
      exact ⟨hmanaged, hused, hkernel⟩
    · exact h.taken r hr q hq
  case inner =>
    rintro r (rfl | hr) path i q hpath hq
    · obtain ⟨rfl, rfl⟩ := hnew hpath.initial hq
      rcases hpath.2 i rfl with rfl | rfl
      · exact Or.inl himage
      · exact Or.inl hstack
    · exact h.inner r hr path i q hpath hq
  case leaf =>
    rintro r (rfl | hr) path q hpath hlength hq i
    · obtain ⟨rfl, -⟩ := hnew hpath hq
      cases hlength
    · exact h.leaf r hr path q hpath hlength hq i
  case shared =>
    rintro r (rfl | hr) i hi hi'
    · exact hshared i hi hi'
    · exact h.shared r hr i hi hi'
  case kept => exact h.kept
  case root => exact h.root

def rootPage (source : Index → Word) : Index → Word :=
  Function.update (Function.update (fun i => source i &&& ~~~pageUser) imageSlot 0#64) stackSlot 0#64

theorem rootPage_slots (source : Index → Word) :
    rootPage source imageSlot = 0#64 ∧ rootPage source stackSlot = 0#64 := by
  have hne : imageSlot ≠ stackSlot := by decide
  unfold rootPage
  rw [Function.update_of_ne hne, Function.update_self, Function.update_self]
  exact ⟨rfl, rfl⟩

theorem rootPage_of_ne (source : Index → Word) {i : Index} (himage : i ≠ imageSlot)
    (hstack : i ≠ stackSlot) : rootPage source i = source i &&& ~~~pageUser := by
  unfold rootPage
  rw [Function.update_of_ne hstack, Function.update_of_ne himage]

theorem createUserAddressSpace_cases (hroot : m.rootPhysical ∉ m.allocator.free) :
    m.createUserAddressSpace = (none, m) ∨ ∃ c allocator, c ∈ m.allocator.free ∧
      allocator.free = m.allocator.free \ {c} ∧ allocator.managed = m.allocator.managed ∧
      allocator.releases = m.allocator.releases ∧
      (m.createUserAddressSpace =
          (some c, fillPage m allocator c (rootPage (m.memory m.rootPhysical))) ∨
        ∃ page, m.createUserAddressSpace = (none, fillPage m (allocator.freePage c) c page)) := by
  unfold createUserAddressSpace allocateTable Machine.allocatePage
  unfold rootPhysical at hroot ⊢
  rcases m.allocator.allocatePage_cases with hnone | ⟨c, a, hsome, hc, hfree, hmanaged, hreleases⟩
  · rw [hnone]
    exact Or.inl rfl
  · have hne : m.kernelRoot &&& addressMask ≠ c := fun heq => hroot (heq ▸ hc)
    refine Or.inr ⟨c, a, hc, hfree, hmanaged, hreleases, ?_⟩
    rw [hsome]
    simp only [writeTable, Machine.freePage, Function.update_of_ne hne, Function.update_idem]
    by_cases hslots : (has (m.memory (m.kernelRoot &&& addressMask) imageSlot) pagePresent ||
        has (m.memory (m.kernelRoot &&& addressMask) stackSlot) pagePresent) = true
    · rw [if_pos hslots]
      exact Or.inr ⟨_, rfl⟩
    · rw [if_neg hslots]
      exact Or.inl rfl

/-- `create_user_address_space`: no page is taken, or one free page becomes the root of a space
without mappings. -/
theorem createUserAddressSpace_spec (h : Shaped m roots kernel reference) :
    (∃ m', m.createUserAddressSpace = (none, m') ∧ Shaped m' roots kernel reference ∧
      Steady roots m m' ∧ m'.allocator.free = m.allocator.free) ∨
    ∃ c m', m.createUserAddressSpace = (some c, m') ∧ c ∈ m.allocator.free ∧
      Shaped m' (insert c roots) kernel reference ∧ Steady roots m m' ∧
      m'.allocator.releases = m.allocator.releases ∧
      m'.allocator.free = m.allocator.free \ {c} ∧ held m'.memory c = {c} ∧
      ∀ k : PageKey, k.InUserSlot → view m'.memory c k = none := by
  rcases createUserAddressSpace_cases (h.kept _ h.root).2 with
    hnone | ⟨c, a, hc, hfree, hmanaged, hreleases, hcreated⟩
  · exact Or.inl ⟨m, hnone, h, .refl roots m, rfl⟩
  have hkernel := h.free_not_kernel hc
  have hfresh : ∀ r ∈ roots, c ∉ held m.memory r := fun r hr hmem => (h.taken r hr c hmem).2.1 hc
  have hmem : c ∈ a.managed := hmanaged.symm ▸ Allocator.free_subset_managed hc
  have hused : c ∉ a.free := by
    rw [hfree]
    exact fun hq => hq.2 rfl
  rcases hcreated with hcreated | ⟨page, hcreated⟩
  · right
    have hsub : a.free ⊆ m.allocator.free := by
      rw [hfree]
      exact fun q hq => hq.1
    have hfilled : Shaped (fillPage m a c (rootPage (m.memory m.rootPhysical))) roots kernel reference :=
      fillPage_shaped h hfresh hkernel hmanaged hsub
    have hfresh' : ∀ r ∈ roots, c ∉ held (fillPage m a c (rootPage (m.memory m.rootPhysical))).memory r := by
      intro r hr
      rw [held_fillPage hfresh hr]
      exact hfresh r hr
    refine ⟨c, _, hcreated, hc, ?_, ⟨rfl, rfl, hmanaged, .of_eq _ hreleases, fillPage_views hfresh,
      fun r hr => held_fillPage hfresh hr⟩, hreleases, hfree, ?_⟩
    · apply shaped_insert hfilled hmem hused hkernel hfresh'
      · rw [fillPage_self, (rootPage_slots _).1]
      · rw [fillPage_self, (rootPage_slots _).2]
      · intro i himage hstack
        rw [fillPage_self, rootPage_of_ne _ himage hstack, (h.kept _ h.root).1]
        rfl
    · apply unmapped_of_empty_slots
      · rw [fillPage_self, (rootPage_slots _).1]
      · rw [fillPage_self, (rootPage_slots _).2]
  · -- A user slot of the kernel root is taken: the page goes back.
    left
    obtain ⟨hback, hmanaged', hlog⟩ := Allocator.freePage_spec hmem hused
    have hfree' : (a.freePage c).free = m.allocator.free := by
      rw [hback, hfree, Set.insert_sdiff_singleton, Set.insert_eq_of_mem hc]
    have hsame := hmanaged'.trans hmanaged
    refine ⟨_, hcreated, fillPage_shaped h hfresh hkernel hsame hfree'.subset, ?_, hfree'⟩
    refine ⟨rfl, rfl, hsame, ⟨[(c, true)], ?_, ?_⟩, fillPage_views hfresh, fun r hr => held_fillPage hfresh hr⟩
    · show (a.freePage c).releases = _
      rw [hlog, hreleases]
    · intro e he
      rw [List.mem_singleton.mp he]
      exact ⟨rfl, hc⟩

end Create

structure Frees (S : Set Word) (m m' : Machine) : Prop where
  memory : m'.memory = m.memory
  kernelRoot : m'.kernelRoot = m.kernelRoot
  nxeEnabled : m'.nxeEnabled = m.nxeEnabled
  managed : m'.allocator.managed = m.allocator.managed
  answered : Answered S m m'
  free : m'.allocator.free = m.allocator.free ∪ S

section Release
variable {r : Word}

theorem Frees.refl (m : Machine) : Frees ∅ m m :=
  ⟨rfl, rfl, rfl, rfl, .of_eq _ rfl, (Set.union_empty _).symm⟩

theorem Frees.trans {S T : Set Word} {m'' : Machine} (h : Frees S m m') (h' : Frees T m' m'') :
    Frees (S ∪ T) m m'' where
  memory := h'.memory.trans h.memory
  kernelRoot := h'.kernelRoot.trans h.kernelRoot
  nxeEnabled := h'.nxeEnabled.trans h.nxeEnabled
  managed := h'.managed.trans h.managed
  answered := (h.answered.mono Set.subset_union_left).trans (h'.answered.mono Set.subset_union_right)
  free := by rw [h'.free, h.free, Set.union_assoc]

theorem frees_freePage {p : Word} (hp : p ∈ m.allocator.managed) (hused : p ∉ m.allocator.free) :
    Frees {p} m (m.freePage p) := by
  obtain ⟨hfree, hmanaged, hreleases⟩ := Allocator.freePage_spec hp hused
  refine ⟨rfl, rfl, rfl, hmanaged, ⟨[(p, true)], hreleases, ?_⟩, ?_⟩
  · intro e he
    rw [List.mem_singleton.mp he]
    exact ⟨rfl, rfl⟩
  · rw [Set.union_singleton]
    exact hfree

def below (memory : PhysicalMemory) (r : Word) (path : List Index) : Set Word :=
  { q | ∃ rest, UserPath (path ++ rest) ∧ node memory r (path ++ rest) = some q }

theorem below_subset_held (memory : PhysicalMemory) (r : Word) (path : List Index) :
    below memory r path ⊆ held memory r := by
  rintro q ⟨rest, hpath, hq⟩
  exact ⟨path ++ rest, hpath, hq⟩

theorem below_split {path : List Index} {p : Word} (hpath : UserPath path)
    (hp : node m.memory r path = some p) :
    below m.memory r path = {p} ∪ { q | ∃ i, q ∈ below m.memory r (path ++ [i]) } := by
  ext q
  constructor
  · rintro ⟨rest, hrest, hq⟩
    cases rest with
    | nil =>
      rw [List.append_nil, hp] at hq
      exact Or.inl (Option.some.inj hq).symm
    | cons i rest =>
      rw [List.append_cons] at hrest hq
      exact Or.inr ⟨i, rest, hrest, hq⟩
  · rintro (rfl | ⟨i, rest, hrest, hq⟩)
    · exact ⟨[], by rw [List.append_nil]; exact hpath, by rw [List.append_nil]; exact hp⟩
    · rw [List.append_assoc] at hrest hq
      exact ⟨i :: rest, hrest, hq⟩

theorem below_of_unlinked {path : List Index} {p : Word} {i : Index} (hp : node m.memory r path = some p)
    (hlink : link (m.memory p i) = none) : below m.memory r (path ++ [i]) = ∅ := by
  rw [Set.eq_empty_iff_forall_notMem]
  rintro q ⟨rest, -, hq⟩
  unfold node at hp hq
  rw [follow_append, follow_concat, hp] at hq
  have hnone : ((some p).bind fun b => link (m.memory b i)) = none := hlink
  rw [hnone] at hq
  cases hq

theorem below_disjoint (h : Shaped m roots kernel reference) (hr : r ∈ roots) (path : List Index)
    {i j : Index} (hij : i ≠ j) {q : Word} (hq : q ∈ below m.memory r (path ++ [i])) :
    q ∉ below m.memory r (path ++ [j]) := by
  -- the trees below different entries of a table have no page in common
  rintro ⟨rest', hpath', hq'⟩
  obtain ⟨rest, hpath, hq⟩ := hq
  obtain ⟨-, heq⟩ := h.path_inj hr hpath' hq' hr hpath hq
  rw [List.append_assoc, List.append_assoc, List.append_cancel_left_eq] at heq
  exact hij (List.cons.inj heq).1

theorem below_not_self (h : Shaped m roots kernel reference) (hr : r ∈ roots) {path : List Index}
    (hpath : UserPath path) {p : Word} (hp : node m.memory r path = some p) (i : Index) :
    p ∉ below m.memory r (path ++ [i]) := by
  rintro ⟨rest, hrest, hq⟩
  obtain ⟨-, heq⟩ := h.path_inj hr hpath hp hr hrest hq
  have hlength := congrArg List.length heq
  rw [List.append_assoc, List.length_append] at hlength
  simp only [List.singleton_append, List.length_cons] at hlength
  omega

theorem UserPath.extend {path : List Index} (h : UserPath path) (hne : path ≠ [])
    (hlength : path.length < 3) (i : Index) : UserPath (path ++ [i]) := by
  refine ⟨by rw [List.length_append, List.length_singleton]; omega, ?_⟩
  cases path with
  | nil => exact absurd rfl hne
  | cons j path => exact h.2

/-- What the loop of `release_table` does with one entry. -/
def releaseEntry (level : Nat) (p : Word) (m : Machine) (i : Index) : Machine :=
  if has (m.memory p i) pagePresent && !has (m.memory p i) pageHuge then
    releaseTable level (m.memory p i &&& addressMask) m
  else m

theorem releaseTable_inner {level : Nat} {p : Word} (hzero : p ≠ 0#64) (hvalid : p ≠ invalidAddress) :
    releaseTable (level + 2) p m =
      ((List.finRange 512).foldl (releaseEntry (level + 1) p) m).freePage p := by
  rw [releaseTable, if_neg (by rintro (h | h); exacts [hzero h, hvalid h])]
  rfl

theorem releaseTable_last {p : Word} (hzero : p ≠ 0#64) (hvalid : p ≠ invalidAddress) :
    releaseTable 1 p m = m.freePage p := by
  rw [releaseTable, if_neg (by rintro (h | h); exacts [hzero h, hvalid h])]

theorem releaseEntries_spec (h : Shaped m roots kernel reference) (hr : r ∈ roots) (level : Nat)
    {path : List Index} {p : Word} (hp : node m.memory r path = some p)
    (hcall : ∀ i q m₁, node m.memory r (path ++ [i]) = some q → m₁.memory = m.memory →
      m₁.allocator.managed = m.allocator.managed →
      (∀ x ∈ below m.memory r (path ++ [i]), x ∉ m₁.allocator.free) →
      Frees (below m.memory r (path ++ [i])) m₁ (releaseTable level q m₁))
    (l : List Index) (hnodup : l.Nodup) (m₁ : Machine) (hmemory : m₁.memory = m.memory)
    (hmanaged : m₁.allocator.managed = m.allocator.managed)
    (hused : ∀ i ∈ l, ∀ x ∈ below m.memory r (path ++ [i]), x ∉ m₁.allocator.free) :
    Frees { x | ∃ i ∈ l, x ∈ below m.memory r (path ++ [i]) } m₁
      (l.foldl (releaseEntry level p) m₁) := by
  induction l generalizing m₁ with
  | nil =>
    have hempty : { x | ∃ i ∈ ([] : List Index), x ∈ below m.memory r (path ++ [i]) } = ∅ := by
      rw [Set.eq_empty_iff_forall_notMem]
      rintro x ⟨i, hi, -⟩
      cases hi
    rw [hempty]
    exact .refl m₁
  | cons i l ih =>
    obtain ⟨hi, hnodup⟩ := List.nodup_cons.mp hnodup
    have hstep : Frees (below m.memory r (path ++ [i])) m₁ (releaseEntry level p m₁ i) := by
      unfold releaseEntry
      rw [hmemory]
      by_cases hlinked : (has (m.memory p i) pagePresent && !has (m.memory p i) pageHuge) = true
      · rw [if_pos hlinked]
        apply hcall i _ m₁ _ hmemory hmanaged (hused i List.mem_cons_self)
        unfold node at hp ⊢
        rw [follow_concat, hp]
        exact if_pos hlinked
      · rw [if_neg hlinked, below_of_unlinked hp (if_neg hlinked)]
        exact .refl m₁
    have hused' : ∀ j ∈ l, ∀ x ∈ below m.memory r (path ++ [j]),
        x ∉ (releaseEntry level p m₁ i).allocator.free := by
      intro j hj x hx hmem
      have hij : i ≠ j := by
        rintro rfl
        exact hi hj
      rw [hstep.free] at hmem
      rcases hmem with hmem | hmem
      · exact hused j (List.mem_cons_of_mem i hj) x hx hmem
      · exact below_disjoint h hr path hij hmem hx
    have hrest := ih hnodup (releaseEntry level p m₁ i) (hstep.memory.trans hmemory)
      (hstep.managed.trans hmanaged) hused'
    have hunion : { x | ∃ j ∈ i :: l, x ∈ below m.memory r (path ++ [j]) } =
        below m.memory r (path ++ [i]) ∪ { x | ∃ j ∈ l, x ∈ below m.memory r (path ++ [j]) } := by
      ext x
      simp only [List.mem_cons, exists_eq_or_imp, Set.mem_union, Set.mem_ofPred_eq]
    rw [hunion]
    exact hstep.trans hrest

theorem releaseTable_spec (h : Shaped m roots kernel reference) (hr : r ∈ roots) (level : Nat) :
    ∀ path p m₁, path ≠ [] → path.length + level = 3 → UserPath path →
      node m.memory r path = some p → m₁.memory = m.memory →
      m₁.allocator.managed = m.allocator.managed →
      (∀ x ∈ below m.memory r path, x ∉ m₁.allocator.free) →
      Frees (below m.memory r path) m₁ (releaseTable (level + 1) p m₁) := by
  induction level with
  | zero =>
    intro path p m₁ hne hlength hpath hp hmemory hmanaged hused
    have hmem := (h.taken r hr p ⟨path, hpath, hp⟩).1
    have hlast : below m.memory r path = {p} := by
      rw [below_split hpath hp, Set.union_eq_left]
      rintro q ⟨i, rest, hrest, -⟩
      have hlong := hrest.1
      simp only [List.length_append, List.length_cons] at hlong
      omega
    rw [releaseTable_last (Allocator.managed_ne_zero hmem) (Allocator.managed_ne_invalid hmem)]
    rw [hlast] at hused ⊢
    exact frees_freePage (hmanaged.symm ▸ hmem) (hused p rfl)
  | succ level ih =>
    intro path p m₁ hne hlength hpath hp hmemory hmanaged hused
    have hmem := (h.taken r hr p ⟨path, hpath, hp⟩).1
    rw [releaseTable_inner (Allocator.managed_ne_zero hmem) (Allocator.managed_ne_invalid hmem)]
    have hsplit : below m.memory r path =
        { x | ∃ i ∈ List.finRange 512, x ∈ below m.memory r (path ++ [i]) } ∪ {p} := by
      rw [below_split hpath hp, Set.union_comm]
      congr 1
      ext x
      simp only [List.mem_finRange, true_and]
    have hentries := releaseEntries_spec h hr (level + 1) hp
      (fun i q m₂ hq => ih (path ++ [i]) q m₂ (by simp) (by simp; omega)
        (hpath.extend hne (by omega) i) hq)
      (List.finRange 512) (List.nodup_finRange 512) m₁ hmemory hmanaged
      (fun i hi x hx => hused x (by rw [hsplit]; exact Or.inl ⟨i, hi, hx⟩))
    rw [hsplit]
    apply hentries.trans
    apply frees_freePage
    · rw [hentries.managed, hmanaged]
      exact hmem
    · rw [hentries.free]
      rintro (hfree | ⟨i, -, hx⟩)
      · exact hused p (by rw [hsplit]; exact Or.inr rfl) hfree
      · exact below_not_self h hr hpath hp i hx

theorem Frees.views {S : Set Word} (h : Frees S m m') (roots : Set Word) : SameViews roots m m' := by
  intro r _ k _
  rw [h.memory]

theorem Frees.shaped {S roots' : Set Word} (hfrees : Frees S m m')
    (h : Shaped m roots kernel reference) (hsub : roots' ⊆ roots) (hkernel : ∀ x ∈ S, x ∉ kernel)
    (hheld : ∀ x ∈ S, ∀ r ∈ roots', x ∉ held m.memory r) : Shaped m' roots' kernel reference := by
  constructor
  case unshared =>
    rw [hfrees.memory]
    rintro r path r' path' b ⟨hr, hpath⟩ ⟨hr', hpath'⟩ hb hb'
    exact h.path_inj (hsub hr') hpath' hb' (hsub hr) hpath hb
  case taken =>
    intro r hr q hq
    rw [hfrees.memory] at hq
    obtain ⟨hm, hf, hk⟩ := h.taken r (hsub hr) q hq
    rw [hfrees.managed, hfrees.free]
    refine ⟨hm, ?_, hk⟩
    rintro (hmem | hmem)
    · exact hf hmem
    · exact hheld q hmem r hr hq
  case inner =>
    rw [hfrees.memory, hfrees.managed]
    exact fun r hr => h.inner r (hsub hr)
  case leaf =>
    rw [hfrees.memory]
    exact fun r hr => h.leaf r (hsub hr)
  case shared =>
    rw [hfrees.memory, Machine.rootPhysical_congr hfrees.kernelRoot]
    exact fun r hr => h.shared r (hsub hr)
  case kept =>
    intro q hq
    rw [hfrees.memory, hfrees.free]
    refine ⟨(h.kept q hq).1, ?_⟩
    rintro (hmem | hmem)
    · exact (h.kept q hq).2 hmem
    · exact hkernel q hmem hq
  case root =>
    rw [Machine.rootPhysical_congr hfrees.kernelRoot]
    exact h.root

theorem releaseSlot_spec (h : Shaped m roots kernel reference) (hr : r ∈ roots) {slot : Index}
    (hslot : slot = imageSlot ∨ slot = stackSlot) {m₁ : Machine} (hmemory : m₁.memory = m.memory)
    (hmanaged : m₁.allocator.managed = m.allocator.managed)
    (hused : ∀ x ∈ below m.memory r [slot], x ∉ m₁.allocator.free) :
    Frees (below m.memory r [slot]) m₁
      (if has (m.memory r slot) pagePresent then
        releaseTable 3 (m.memory r slot &&& addressMask) m₁ else m₁) := by
  have hpath : UserPath [slot] := ⟨by simp, fun i hi => by
    obtain rfl : slot = i := Option.some.inj hi
    exact hslot⟩
  have hroot : node m.memory r [] = some r := rfl
  have hnode : node m.memory r ([] ++ [slot]) = link (m.memory r slot) := by
    unfold node
    rw [follow_concat]
    rfl
  rcases h.inner r hr [] slot r hpath rfl with hzero | ⟨c, hc, hentry⟩
  · have hnone : link (m.memory r slot) = none := by
      rw [hzero]
      exact link_zero
    have habsent : ¬ has (m.memory r slot) pagePresent = true := by
      rw [hzero]
      decide
    have hempty : below m.memory r [slot] = ∅ := below_of_unlinked hroot hnone
    rw [if_neg habsent, hempty]
    exact .refl m₁
  · have hmask := Allocator.managed_mask hc
    obtain ⟨hpresent, -, haddress⟩ := tableEntry_has hmask
    rw [hentry, link_tableEntry hmask] at hnode
    rw [hentry, if_pos hpresent, haddress]
    exact releaseTable_spec h hr 2 [slot] c m₁ (List.cons_ne_nil _ _) rfl hpath hnode hmemory hmanaged
      hused

theorem held_split (h : Shaped m roots kernel reference) (hr : r ∈ roots) :
    held m.memory r = below m.memory r [imageSlot] ∪ below m.memory r [stackSlot] ∪ {r} := by
  ext q
  constructor
  · rintro ⟨path, hpath, hq⟩
    cases path with
    | nil => exact Or.inr (Option.some.inj hq).symm
    | cons i path =>
      left
      rcases hpath.2 i rfl with rfl | rfl
      · exact Or.inl ⟨path, hpath, hq⟩
      · exact Or.inr ⟨path, hpath, hq⟩
  · rintro ((hq | hq) | rfl)
    · exact below_subset_held _ _ _ hq
    · exact below_subset_held _ _ _ hq
    · exact h.mem_held q

/-- `destroy_user_address_space` gives back the tables of the space. -/
theorem destroyUserAddressSpace_spec (h : Shaped m roots kernel reference) (hr : r ∈ roots) :
    Frees (held m.memory r) m (destroyUserAddressSpace r m) := by
  have hmem := (h.taken r hr r (h.mem_held r)).1
  have hroot : node m.memory r [] = some r := rfl
  have hused : ∀ x ∈ held m.memory r, x ∉ m.allocator.free := fun x hx => (h.taken r hr x hx).2.1
  have hvalid : ¬ (r = invalidAddress ∨ r = 0#64) := by
    rintro (hr | hr)
    · exact Allocator.managed_ne_invalid hmem hr
    · exact Allocator.managed_ne_zero hmem hr
  have hslots : decide (stackSlot ≠ imageSlot) = true := by decide
  unfold destroyUserAddressSpace
  rw [if_neg hvalid, hslots]
  dsimp only
  have himage := releaseSlot_spec h hr (Or.inl rfl) rfl rfl
    fun x hx => hused x (below_subset_held _ _ _ hx)
  generalize (if has (m.memory r imageSlot) pagePresent = true then
    releaseTable 3 (m.memory r imageSlot &&& addressMask) m else m) = m₁ at himage ⊢
  have hstack := releaseSlot_spec h hr (Or.inr rfl) himage.memory himage.managed (by
    intro x hx hfree
    rw [himage.free] at hfree
    rcases hfree with hfree | hfree
    · exact hused x (below_subset_held _ _ _ hx) hfree
    · exact below_disjoint h hr [] (by decide) hfree hx)
  rw [himage.memory, Bool.and_true]
  generalize (if has (m.memory r stackSlot) pagePresent = true then
    releaseTable 3 (m.memory r stackSlot &&& addressMask) m₁ else m₁) = m₂ at hstack ⊢
  have hboth := himage.trans hstack
  rw [held_split h hr]
  apply hboth.trans
  apply frees_freePage
  · rw [hboth.managed]
    exact hmem
  · rw [hboth.free]
    rintro (hfree | hfree | hfree)
    · exact hused r (h.mem_held r) hfree
    · exact below_not_self h hr .nil hroot imageSlot hfree
    · exact below_not_self h hr .nil hroot stackSlot hfree

end Release

end Linux95.Memory
