import Linux95.Memory.Isolation
import Linux95.User.Loader

/-! The pages of an image while it is built: where each page that leaves the allocator goes. -/

namespace Linux95.User
open Base LinkedTables Memory Machine

variable {m m' m₀ : Machine} {roots kernel : Set Word} {reference : PhysicalMemory} {r p : Word}

def frames (memory : PhysicalMemory) (r : Word) : Set Word :=
  { f | ∃ k : PageKey, k.InUserSlot ∧ ∃ e, view memory r k = some e ∧ f = e &&& addressMask }

def scanned : List Word :=
  pagesFrom userImageBase imagePageCount ++ pagesFrom userStackBase userStackPages

/-- The mappings of a space as a loaded process has them: where the reaper looks, each frame once, and
no table among the frames. `pages` lists the frames. -/
structure Furnished (memory : PhysicalMemory) (r : Word) (pages : List Word) : Prop where
  scanned : ∀ k e, k.InUserSlot → view memory r k = some e → ∃ va ∈ scanned, pageKey va = k
  single : ∀ k k' e e', k.InUserSlot → k'.InUserSlot → view memory r k = some e →
    view memory r k' = some e' → e &&& addressMask = e' &&& addressMask → k = k'
  listed : ∀ f, f ∈ pages ↔ f ∈ frames memory r

theorem Furnished.congr {pages : List Word} {memory memory' : PhysicalMemory}
    (h : Furnished memory r pages)
    (hviews : ∀ k : PageKey, k.InUserSlot → view memory' r k = view memory r k) :
    Furnished memory' r pages := by
  have hframes : frames memory' r = frames memory r := by
    ext f
    constructor
    · rintro ⟨k, hk, e, he, rfl⟩
      exact ⟨k, hk, e, (hviews k hk).symm.trans he, rfl⟩
    · rintro ⟨k, hk, e, he, rfl⟩
      exact ⟨k, hk, e, (hviews k hk).trans he, rfl⟩
  constructor
  · intro k e hk he
    exact h.scanned k e hk ((hviews k hk).symm.trans he)
  · intro k k' e e' hk hk' he he'
    exact h.single k k' e e' hk hk' ((hviews k hk).symm.trans he) ((hviews k' hk').symm.trans he')
  · rw [hframes]
    exact h.listed

theorem Furnished.empty (hempty : ∀ k : PageKey, k.InUserSlot → view m.memory r k = none) :
    Furnished m.memory r [] := by
  constructor
  · intro k e hk he
    rw [hempty k hk] at he
    cases he
  · intro k k' e e' hk _ he
    rw [hempty k hk] at he
    cases he
  · intro f
    constructor
    · intro hf
      cases hf
    · rintro ⟨k, hk, e, he, -⟩
      rw [hempty k hk] at he
      cases he

theorem Furnished.maps {pages : List Word} {va : Word} {writable executable : Bool}
    (h : Furnished m.memory r pages) (hr : r ∈ roots) (hk : (pageKey va).InUserSlot)
    (hva : ∃ va' ∈ User.scanned, pageKey va' = pageKey va) (hp : p &&& addressMask = p)
    (hnew : p ∉ pages)
    (hmaps : Maps roots r (pageKey va) ⟨p, writable, executable⟩ m m') :
    Furnished m'.memory r (pages ++ [p]) := by
  obtain ⟨hnone, hviews⟩ := hmaps
  have hframe : Leaf.entry ⟨p, writable, executable⟩ &&& addressMask = p :=
    (Leaf.entry_has ⟨p, writable, executable⟩).2.trans hp
  have hself : view m'.memory r (pageKey va) = some (Leaf.entry ⟨p, writable, executable⟩) := by
    rw [hviews r hr _ hk, if_pos ⟨rfl, rfl⟩]
  -- A mapping is the new one, or it was there and its frame is another page.
  have hcases : ∀ {k e}, k.InUserSlot → view m'.memory r k = some e →
      k = pageKey va ∧ e &&& addressMask = p ∨
        k ≠ pageKey va ∧ view m.memory r k = some e ∧ e &&& addressMask ≠ p := by
    intro k e hk' he
    by_cases hsame : k = pageKey va
    · subst hsame
      rw [hself] at he
      rw [← Option.some.inj he]
      exact Or.inl ⟨rfl, hframe⟩
    · rw [hviews r hr k hk', if_neg fun hat => hsame hat.2] at he
      refine Or.inr ⟨hsame, he, ?_⟩
      intro heq
      exact hnew ((h.listed p).mpr ⟨k, hk', e, he, heq.symm⟩)
  constructor
  · intro k e hk' he
    rcases hcases hk' he with ⟨rfl, -⟩ | ⟨-, hold, -⟩
    · exact hva
    · exact h.scanned k e hk' hold
  · intro k k' e e' hk₁ hk₂ he he' heq
    rcases hcases hk₁ he with ⟨rfl, hp₁⟩ | ⟨-, hold, hne⟩ <;>
      rcases hcases hk₂ he' with ⟨rfl, hp₂⟩ | ⟨-, hold', hne'⟩
    · rfl
    · exact absurd (heq.symm.trans hp₁) hne'
    · exact absurd (heq.trans hp₂) hne
    · exact h.single k k' e e' hk₁ hk₂ hold hold' heq
  · intro f
    rw [List.mem_append, List.mem_singleton, h.listed f]
    constructor
    · rintro (⟨k, hk', e, he, rfl⟩ | rfl)
      · have hne : k ≠ pageKey va := by
          rintro rfl
          rw [hnone] at he
          cases he
        refine ⟨k, hk', e, ?_, rfl⟩
        rw [hviews r hr k hk', if_neg fun hat => hne hat.2]
        exact he
      · exact ⟨pageKey va, hk, _, hself, hframe.symm⟩
    · rintro ⟨k, hk', e, he, rfl⟩
      rcases hcases hk' he with ⟨-, hp'⟩ | ⟨-, hold, -⟩
      · exact Or.inr hp'
      · exact Or.inl ⟨k, hk', e, hold, rfl⟩

/-- The image under construction, compared with the machine `m₀` before the load: every page that is
not free any more is a table of the new space or stands in the list. -/
structure Built (m₀ : Machine) (roots kernel : Set Word) (reference : PhysicalMemory) (r : Word)
    (s : Loading) : Prop where
  shaped : Shaped s.machine (insert r roots) kernel reference
  fresh : r ∉ roots
  kernelRoot : s.machine.kernelRoot = m₀.kernelRoot
  nxeEnabled : s.machine.nxeEnabled = m₀.nxeEnabled
  managed : s.machine.allocator.managed = m₀.allocator.managed
  releases : s.machine.allocator.releases = m₀.allocator.releases
  views : SameViews roots m₀ s.machine
  tables : ∀ r' ∈ roots, held s.machine.memory r' = held m₀.memory r'
  ledger : s.machine.allocator.free ∪ held s.machine.memory r ∪ { p | p ∈ s.userPages } =
    m₀.allocator.free
  nodup : s.userPages.Nodup
  apart : ∀ p ∈ s.userPages, p ∉ s.machine.allocator.free ∧ p ∉ held s.machine.memory r

section Built
variable {s : Loading}

theorem Built.of_free (h₀ : Shaped m₀ roots kernel reference)
    (h : Built m₀ roots kernel reference r s) (hp : p ∈ m₀.allocator.free) :
    p ∉ kernel ∧ ∀ r' ∈ roots, p ∉ held s.machine.memory r' := by
  -- what was free before the load belongs to nobody else
  refine ⟨h₀.free_not_kernel hp, ?_⟩
  intro r' hr' hheld
  rw [h.tables r' hr'] at hheld
  exact (h₀.taken r' hr' p hheld).2.1 hp

theorem Built.mem_free (h : Built m₀ roots kernel reference r s) (hp : p ∈ s.userPages) :
    p ∈ m₀.allocator.free := by
  rw [← h.ledger]
  exact Or.inr hp

theorem Built.take {allocator : Allocator} (h : Built m₀ roots kernel reference r s)
    (hp : p ∈ s.machine.allocator.free)
    (hfree : allocator.free = s.machine.allocator.free \ {p})
    (hmanaged : allocator.managed = s.machine.allocator.managed)
    (hreleases : allocator.releases = s.machine.allocator.releases) :
    Built m₀ roots kernel reference r
      ⟨{ s.machine with allocator := allocator }, s.userPages ++ [p]⟩ := by
  have hheld : p ∉ held s.machine.memory r :=
    fun hmem => (h.shaped.taken r (Set.mem_insert r roots) p hmem).2.1 hp
  have hlist : p ∉ s.userPages := fun hmem => (h.apart p hmem).1 hp
  have hsub : allocator.free ⊆ s.machine.allocator.free := by
    rw [hfree]
    exact fun q hq => hq.1
  constructor
  case shaped => exact h.shaped.withAllocator hmanaged hsub
  case fresh => exact h.fresh
  case kernelRoot => exact h.kernelRoot
  case nxeEnabled => exact h.nxeEnabled
  case managed => exact hmanaged.trans h.managed
  case releases => exact hreleases.trans h.releases
  case views => exact h.views
  case tables => exact h.tables
  case ledger =>
    rw [← h.ledger]
    ext q
    show (q ∈ allocator.free ∨ q ∈ held s.machine.memory r) ∨ q ∈ s.userPages ++ [p] ↔
      (q ∈ s.machine.allocator.free ∨ q ∈ held s.machine.memory r) ∨ q ∈ s.userPages
    rw [hfree, List.mem_append, List.mem_singleton]
    constructor
    · rintro ((hq | hq) | hq | rfl)
      · exact Or.inl (Or.inl hq.1)
      · exact Or.inl (Or.inr hq)
      · exact Or.inr hq
      · exact Or.inl (Or.inl hp)
    · rintro ((hq | hq) | hq)
      · by_cases hqp : q = p
        · exact Or.inr (Or.inr hqp)
        · exact Or.inl (Or.inl ⟨hq, hqp⟩)
      · exact Or.inl (Or.inr hq)
      · exact Or.inr (Or.inl hq)
  case nodup =>
    rw [List.nodup_append]
    refine ⟨h.nodup, List.nodup_singleton p, ?_⟩
    intro a ha b hb hab
    rw [List.mem_singleton.mp hb] at hab
    exact hlist (hab ▸ ha)
  case apart =>
    intro q hq
    show q ∉ allocator.free ∧ q ∉ held s.machine.memory r
    rw [hfree]
    rcases List.mem_append.mp hq with hq | hq
    · exact ⟨fun hmem => (h.apart q hq).1 hmem.1, (h.apart q hq).2⟩
    · rw [List.mem_singleton.mp hq]
      exact ⟨fun hmem => hmem.2 rfl, hheld⟩

theorem Built.fill (h₀ : Shaped m₀ roots kernel reference)
    (h : Built m₀ roots kernel reference r s) (hp : p ∈ s.userPages) (contents : Index → Word) :
    Built m₀ roots kernel reference r { s with machine := s.machine.writeTable p contents } ∧
      SameViews (insert r roots) s.machine (s.machine.writeTable p contents) := by
  have hnobody : ∀ r' ∈ insert r roots, p ∉ held s.machine.memory r' := by
    rintro r' (rfl | hr')
    · exact (h.apart p hp).2
    · exact (h.of_free h₀ (h.mem_free hp)).2 r' hr'
  have hheld : ∀ r' ∈ insert r roots,
      held (s.machine.writeTable p contents).memory r' = held s.machine.memory r' :=
    fun r' hr' => held_fillPage hnobody hr'
  have hviews : SameViews (insert r roots) s.machine (s.machine.writeTable p contents) :=
    fillPage_views hnobody
  refine ⟨?_, hviews⟩
  constructor
  case shaped =>
    exact fillPage_shaped h.shaped hnobody (h.of_free h₀ (h.mem_free hp)).1 rfl (fun q hq => hq)
  case fresh => exact h.fresh
  case kernelRoot => exact h.kernelRoot
  case nxeEnabled => exact h.nxeEnabled
  case managed => exact h.managed
  case releases => exact h.releases
  case views =>
    intro r' hr' k hk
    rw [hviews r' (Set.mem_insert_of_mem r hr') k hk]
    exact h.views r' hr' k hk
  case tables =>
    intro r' hr'
    rw [hheld r' (Set.mem_insert_of_mem r hr')]
    exact h.tables r' hr'
  case ledger =>
    rw [hheld r (Set.mem_insert r roots)]
    exact h.ledger
  case nodup => exact h.nodup
  case apart =>
    rw [hheld r (Set.mem_insert r roots)]
    exact h.apart

theorem Built.map {k : PageKey} {l : Leaf} {result : Bool × Machine}
    (h : Built m₀ roots kernel reference r s)
    (hresult : Outcome (insert r roots) kernel reference r k l s.machine result) :
    Built m₀ roots kernel reference r { s with machine := result.2 } := by
  -- whatever `map_user_page` answers, the pages it has taken are tables of the space
  obtain ⟨hshaped, hgrows, hviews⟩ := hresult
  have hothers : SameViews roots s.machine result.2 := by
    intro r' hr' k' hk'
    have hne : r' ≠ r := fun heq => h.fresh (heq ▸ hr')
    cases hanswer : result.1 with
    | true =>
      rw [hanswer] at hviews
      rw [hviews.2 r' (Set.mem_insert_of_mem r hr') k' hk', if_neg fun hat => hne hat.1]
    | false =>
      rw [hanswer] at hviews
      exact hviews r' (Set.mem_insert_of_mem r hr') k' hk'
  constructor
  case shaped => exact hshaped
  case fresh => exact h.fresh
  case kernelRoot => exact hgrows.kernelRoot.trans h.kernelRoot
  case nxeEnabled => exact hgrows.nxeEnabled.trans h.nxeEnabled
  case managed => exact hgrows.managed.trans h.managed
  case releases => exact hgrows.releases.trans h.releases
  case views => exact h.views.trans hothers
  case tables =>
    intro r' hr'
    have hne : r' ≠ r := fun heq => h.fresh (heq ▸ hr')
    rw [hgrows.others r' (Set.mem_insert_of_mem r hr') hne]
    exact h.tables r' hr'
  case ledger =>
    rw [← h.ledger]
    exact congrArg (· ∪ { p | p ∈ s.userPages }) hgrows.ledger
  case nodup => exact h.nodup
  case apart =>
    intro q hq
    have hnot : q ∉ result.2.allocator.free ∪ held result.2.memory r := by
      rw [hgrows.ledger]
      rintro (hmem | hmem)
      · exact (h.apart q hq).1 hmem
      · exact (h.apart q hq).2 hmem
    exact ⟨fun hmem => hnot (Or.inl hmem), fun hmem => hnot (Or.inr hmem)⟩

end Built

end Linux95.User
