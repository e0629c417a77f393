import Linux95.Base.TableEntries
import Linux95.Memory.KernelPaging
import Linux95.Memory.TableTrees
import Mathlib.Order.BooleanAlgebra.Set

/-! The kernel's tables as a tree: what a write to an entry does to it. -/

namespace Linux95.Memory
open Base LinkedTables

theorem present_of_link {w c : Word} (h : link w = some c) : has w pagePresent = true := by
  unfold link at h
  split at h
  · rename_i hbits
    exact (Bool.and_eq_true_iff.mp hbits).1
  · cases h

def pageFormat : Format Word Word := ⟨link, fun w => has w pagePresent, present_of_link⟩

namespace Machine

def table (m : Machine) (path : List Index) : Option Word := node m.memory m.rootPhysical path

def entries (m : Machine) : Entries Index Word := pageFormat.entries 3 m.memory m.rootPhysical

def tables (m : Machine) : Set Word := { p | ∃ path, path.length ≤ 3 ∧ m.table path = some p }

end Machine

/-- Every table of the kernel has one path, and its page is allocated. -/
structure KernelTree (m : Machine) : Prop where
  unshared : Unshared link m.memory (upTo m.rootPhysical 3)
  taken : ∀ p ∈ m.tables, p ∉ m.allocator.free

variable {m m' : Machine} {path : List Index} {i j : Index} {p q c w : Word} {x : Option Word}

section Tables

theorem table_nil (m : Machine) : m.table [] = some m.rootPhysical := rfl

theorem table_concat (hpath : path.length ≤ 3) : m.table (path ++ [i]) = (m.entries path i).bind link :=
  follow_concat_entries (F := pageFormat) hpath

theorem entries_eq (hpath : path.length ≤ 3) (hp : m.table path = some p) (i : Index) :
    m.entries path i = if has (m.memory p i) pagePresent then some (m.memory p i) else none :=
  (entries_of_follow (F := pageFormat) hpath hp i).trans (Option.filter_some ..)

theorem entries_eq_some (hpath : path.length ≤ 3) (hp : m.table path = some p)
    (h : has (m.memory p i) pagePresent = true) : m.entries path i = some (m.memory p i) := by
  rw [entries_eq hpath hp, if_pos h]

theorem entries_eq_none (hpath : path.length ≤ 3) (hp : m.table path = some p) :
    m.entries path i = none ↔ has (m.memory p i) pagePresent = false := by
  rw [entries_eq hpath hp]
  cases has (m.memory p i) pagePresent <;> simp

theorem memory_of_entries (hpath : path.length ≤ 3) (hp : m.table path = some p) (h : m.entries path i = some w) :
    m.memory p i = w ∧ has w pagePresent = true := by
  rw [entries_eq hpath hp] at h
  split at h
  · obtain rfl := Option.some.inj h
    exact ⟨rfl, by assumption⟩
  · cases h

theorem table_of_entries (h : m.entries path i = some w) : ∃ p, m.table path = some p ∧ path.length ≤ 3 := by
  have hpath : path.length ≤ 3 := by
    by_contra hdeep
    rw [Machine.entries, entries_deep (Nat.not_le.mp hdeep)] at h
    cases h
  cases hp : m.table path with
  | none =>
    rw [Machine.entries, entries_of_follow_none (F := pageFormat) hp] at h
    cases h
  | some p => exact ⟨p, rfl, hpath⟩

theorem tableEmpty_iff (hpath : path.length ≤ 3) (hp : m.table path = some p) :
    tableEmpty (m.memory p) = true ↔ ∀ i, m.entries path i = none := by
  unfold tableEmpty
  rw [List.all_eq_true]
  constructor
  · intro h i
    rw [entries_eq_none hpath hp]
    have hi := h i (List.mem_finRange i)
    rwa [Bool.not_eq_true'] at hi
  · intro h i _
    rw [Bool.not_eq_true']
    exact (entries_eq_none hpath hp).mp (h i)

namespace KernelTree

theorem path_inj (h : KernelTree m) {path' : List Index} (hpath : path.length ≤ 3) (hpath' : path'.length ≤ 3)
    (hp : m.table path = some p) (hp' : m.table path' = some p) : path' = path := by
  have hbelongs : (upTo m.rootPhysical 3).belongs m.rootPhysical path := ⟨rfl, hpath⟩
  have hbelongs' : (upTo m.rootPhysical 3).belongs m.rootPhysical path' := ⟨rfl, hpath'⟩
  exact (h.unshared hbelongs' hbelongs hp' hp).2

theorem not_free (h : KernelTree m) (hpath : path.length ≤ 3) (hp : m.table path = some p) :
    p ∉ m.allocator.free := h.taken p ⟨path, hpath, hp⟩

theorem fresh (h : KernelTree m) (hc : c ∈ m.allocator.free) :
    LinkedTables.Fresh link m.memory (upTo m.rootPhysical 3) c := by
  rintro r path ⟨rfl, hpath⟩ hfound
  exact h.not_free hpath hfound hc

end KernelTree

end Tables

structure Edit (m m' : Machine) (path : List Index) (i : Index) (x : Option Word) : Prop where
  tree : KernelTree m'
  kernelRoot : m'.kernelRoot = m.kernelRoot
  nxeEnabled : m'.nxeEnabled = m.nxeEnabled
  managed : m'.allocator.managed = m.allocator.managed
  entries : m'.entries = store m.entries path i x
  zeroed : ∀ p, m.table path = some p → x = none → m'.memory p i = 0#64
  others : ∀ p j, p ∉ m.allocator.free → (m.table path = some p → j ≠ i) → m'.memory p j = m.memory p j

def SamePages (m m' : Machine) : Prop := m'.allocator.free ∪ m'.tables = m.allocator.free ∪ m.tables

theorem Edit.rootPhysical (h : Edit m m' path i x) : m'.rootPhysical = m.rootPhysical :=
  Machine.rootPhysical_congr h.kernelRoot

theorem Edit.entries_self (h : Edit m m' path i x) : m'.entries path i = x := by
  rw [h.entries, store_self]

theorem Edit.entries_of_ne (h : Edit m m' path i x) {path' : List Index} (hne : path' = path → j ≠ i) :
    m'.entries path' j = m.entries path' j := by
  rw [h.entries, store_of_ne hne]

def kernelEntry (p : Word) : Word := p ||| pagePresent ||| pageWritable

theorem link_kernelEntry (hc : c &&& addressMask = c) : link (kernelEntry c) = some c := by
  have heq : kernelEntry c = c ||| 3#64 := by
    unfold kernelEntry
    rw [BitVec.or_assoc]
    rfl
  unfold link
  rw [heq, has_or hc (by decide), has_or hc (by decide), or_mask hc (by decide)]
  rfl

def linkTable (m : Machine) (allocator : Allocator) (p : Word) (i : Index) (c : Word) : Machine :=
  { m with
    allocator := allocator
    memory := store (Function.update m.memory c fun _ => 0#64) p i (kernelEntry c) }

section Writes
variable (h : KernelTree m)
include h

theorem edit_leaf (hp : m.table path = some p) (hlast : path.length = 3) (i : Index) (w : Word)
    (hw : has w pagePresent = true ∨ w = 0#64) :
    Edit m (m.writeEntry p i w) path i (if has w pagePresent then some w else none) ∧
      SamePages m (m.writeEntry p i w) := by
  have hbelongs : (upTo m.rootPhysical 3).belongs m.rootPhysical path := ⟨rfl, hlast.le⟩
  have hleaf : ¬(upTo m.rootPhysical 3).belongs m.rootPhysical (path ++ [i]) := by
    rintro ⟨-, hlong⟩
    rw [List.length_append, hlast, List.length_singleton] at hlong
    exact absurd hlong (by decide)
  have htable : ∀ path', path'.length ≤ 3 → (m.writeEntry p i w).table path' = m.table path' := by
    intro path' hpath'
    have hbelongs' : (upTo m.rootPhysical 3).belongs m.rootPhysical path' := ⟨rfl, hpath'⟩
    exact follow_store_leaf h.unshared hbelongs hp hleaf w hbelongs'
  have htables : (m.writeEntry p i w).tables = m.tables := by
    ext q
    exact exists_congr fun path' => and_congr_right fun hpath' => by rw [htable path' hpath']
  refine ⟨⟨⟨?_, ?_⟩, rfl, rfl, rfl, ?_, ?_, ?_⟩, ?_⟩
  · refine Unshared.congr h.unshared ?_
    rintro r path' ⟨rfl, hpath'⟩
    exact htable path' hpath'
  · rw [htables]
    exact h.taken
  · exact (entries_store_leaf (F := pageFormat) h.unshared hlast.le hp hlast w).trans (by rw [Option.filter_some]; rfl)
  · intro q hq hx
    obtain rfl := Option.some.inj (hp.symm.trans hq)
    rcases hw with hpresent | rfl
    · rw [if_pos hpresent] at hx
      cases hx
    · exact store_self _ _ _ _
  · intro q j _ hne
    refine store_of_ne ?_
    rintro rfl
    exact hne hp
  · unfold SamePages
    rw [htables]
    rfl

theorem edit_link (hp : m.table path = some p) (hinner : path.length < 3) (hempty : m.entries path i = none)
    {allocator : Allocator} (hc : c ∈ m.allocator.free) (hfree : allocator.free = m.allocator.free \ {c})
    (hmanaged : allocator.managed = m.allocator.managed) :
    Edit m (linkTable m allocator p i c) path i (some (kernelEntry c)) ∧
      SamePages m (linkTable m allocator p i c) := by
  have hlink := link_kernelEntry (Allocator.managed_mask (Allocator.free_subset_managed hc))
  have hlength : (path ++ [i]).length ≤ 3 := by
    rw [List.length_append]
    exact hinner
  have hbelow : (upTo m.rootPhysical 3).belongs m.rootPhysical (path ++ [i]) := ⟨rfl, hlength⟩
  have hbefore : m.table (path ++ [i]) = none := by
    rw [table_concat hinner.le, hempty]
    rfl
  have hnone : link (m.memory p i) = none :=
    pageFormat.link_of_absent ((entries_eq_none hinner.le hp).mp hempty)
  have hblank : ∀ j : Index, link ((fun _ => 0#64 : Index → Word) j) = none := fun _ => link_zero
  have htable : ∀ path', path'.length ≤ 3 → (linkTable m allocator p i c).table path' =
      if path' = path ++ [i] then some c else m.table path' := by
    intro path' hpath'
    have hbelongs' : (upTo m.rootPhysical 3).belongs m.rootPhysical path' := ⟨rfl, hpath'⟩
    have hfollow : (linkTable m allocator p i c).table path' =
        if m.rootPhysical = m.rootPhysical ∧ path' = path ++ [i] then some c else m.table path' :=
      follow_attach h.unshared hbelow hp hnone (h.fresh hc) hlink hblank hbelongs'
    rw [hfollow]
    simp only [true_and]
  have htables : (linkTable m allocator p i c).tables = insert c m.tables := by
    ext q
    constructor
    · rintro ⟨path', hpath', hq⟩
      rw [htable path' hpath'] at hq
      split at hq
      · exact Or.inl (Option.some.inj hq).symm
      · exact Or.inr ⟨path', hpath', hq⟩
    · rintro (rfl | ⟨path', hpath', hq⟩)
      · exact ⟨path ++ [i], hlength, by rw [htable _ hlength, if_pos rfl]⟩
      · refine ⟨path', hpath', ?_⟩
        rw [htable path' hpath', if_neg]
        · exact hq
        · rintro rfl
          rw [hbefore] at hq
          cases hq
  refine ⟨⟨⟨?_, ?_⟩, rfl, rfl, hmanaged, ?_, ?_, ?_⟩, ?_⟩
  · exact Unshared.attach h.unshared hbelow hp hnone (h.fresh hc) hlink hblank
  · rw [htables]
    show ∀ q ∈ insert c m.tables, q ∉ allocator.free
    rw [hfree]
    rintro q (rfl | hq)
    · exact fun hmem => hmem.2 rfl
    · exact fun hmem => h.taken q hq hmem.1
  · exact entries_attach (F := pageFormat) h.unshared hinner.le hp hinner hempty (h.fresh hc) hlink fun _ => rfl
  · intro q _ hx
    cases hx
  · intro q j hq hne
    have hqc : q ≠ c := by
      rintro rfl
      exact hq hc
    have hqp : q = p → j ≠ i := by
      rintro rfl
      exact hne hp
    show store _ p i _ q j = _
    rw [store_of_ne hqp, Function.update_of_ne hqc]
  · show allocator.free ∪ _ = _
    rw [htables, hfree, Set.union_insert, ← Set.insert_union, Set.insert_sdiff_singleton, Set.insert_eq_of_mem hc]

theorem edit_unlink (hp : m.table path = some p) (hinner : path.length < 3) (hc : m.table (path ++ [i]) = some c)
    (hempty : ∀ j, m.entries (path ++ [i]) j = none) :
    Edit m ((m.writeEntry p i 0#64).freePage c) path i none ∧
      (c ∈ m.allocator.managed → SamePages m ((m.writeEntry p i 0#64).freePage c)) := by
  obtain ⟨hmanaged, hsubset⟩ := m.allocator.freePage_keeps c
  have hlength : (path ++ [i]).length ≤ 3 := by
    rw [List.length_append]
    exact hinner
  have hbelow : (upTo m.rootPhysical 3).belongs m.rootPhysical (path ++ [i]) := ⟨rfl, hlength⟩
  have hlinks : ∀ d, link (m.memory p i) = some d → ∀ j, link (m.memory d j) = none :=
    links_nothing (F := pageFormat) hp hinner hempty
  have htable : ∀ path', path'.length ≤ 3 → ((m.writeEntry p i 0#64).freePage c).table path' =
      if path' = path ++ [i] then none else m.table path' := by
    intro path' hpath'
    have hbelongs' : (upTo m.rootPhysical 3).belongs m.rootPhysical path' := ⟨rfl, hpath'⟩
    have hfollow : ((m.writeEntry p i 0#64).freePage c).table path' =
        if m.rootPhysical = m.rootPhysical ∧ path' = path ++ [i] then none else m.table path' :=
      follow_detach h.unshared hbelow hp hlinks link_zero hbelongs'
    rw [hfollow]
    simp only [true_and]
  have htables : ∀ q, q ∈ ((m.writeEntry p i 0#64).freePage c).tables ↔ q ∈ m.tables ∧ q ≠ c := by
    intro q
    constructor
    · rintro ⟨path', hpath', hq⟩
      rw [htable path' hpath'] at hq
      split at hq
      · cases hq
      · rename_i hne
        refine ⟨⟨path', hpath', hq⟩, ?_⟩
        rintro rfl
        exact hne (h.path_inj hlength hpath' hc hq)
    · rintro ⟨⟨path', hpath', hq⟩, hne⟩
      refine ⟨path', hpath', ?_⟩
      rw [htable path' hpath', if_neg]
      · exact hq
      · rintro rfl
        exact hne (Option.some.inj (hq.symm.trans hc))
  refine ⟨⟨⟨?_, ?_⟩, rfl, rfl, hmanaged, ?_, ?_, ?_⟩, ?_⟩
  · exact Unshared.detach h.unshared hbelow hp hlinks link_zero
  · intro q hq hfree
    obtain ⟨hq, hne⟩ := (htables q).mp hq
    rcases hsubset hfree with heq | hfree
    · exact hne heq
    · exact h.taken q hq hfree
  · exact entries_detach (F := pageFormat) h.unshared hinner.le hp hinner hempty rfl
  · intro q hq _
    obtain rfl := Option.some.inj (hp.symm.trans hq)
    exact store_self _ _ _ _
  · intro q j _ hne
    refine store_of_ne ?_
    rintro rfl
    exact hne hp
  · intro hmem
    have hfree := (Allocator.freePage_spec hmem (h.not_free hlength hc)).1
    have hctable : c ∈ m.tables := ⟨path ++ [i], hlength, hc⟩
    show (m.allocator.freePage c).free ∪ _ = _
    rw [hfree]
    ext q
    rw [Set.mem_union, Set.mem_union, Set.mem_insert_iff, htables]
    by_cases hqc : q = c
    · rw [hqc]
      exact ⟨fun _ => Or.inr hctable, fun _ => Or.inl (Or.inl rfl)⟩
    · simp only [hqc, false_or, ne_eq, not_false_eq_true, and_true]

end Writes

end Linux95.Memory
