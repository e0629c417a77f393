import Linux95.Memory.KernelMap

/-! A series of calls of `map_page` that ends with a failure, and the calls of `unmap_page` that take it back. -/

namespace Linux95.Memory
open Base LinkedTables

def Machine.rollback (m : Machine) (vas : List Word) : Machine := vas.foldl (fun m va => (m.unmapPage va).2) m

variable {base m : Machine} {path start : List Index} {i j : Index} {c w va pa flags : Word} {vas : List Word}

def Machine.pageEntry (m : Machine) (va : Word) : Option Word := m.entries (pageKey va).path (ptIndex va)

structure MappedPages (base m : Machine) (vas : List Word) : Prop where
  isOver : Over base m
  counted : m.allocator.Counted
  tight : Tight pageFormat 3 base.entries m.entries
  aligned : ∀ va ∈ vas, isPageAligned va = true
  added : ∀ va ∈ vas, base.pageEntry va = none ∧ m.pageEntry va ≠ none
  distinct : vas.Pairwise fun va va' => pageKey va ≠ pageKey va'
  only : ∀ path x, path.length = 3 → base.entries path x = none → m.entries path x ≠ none →
    ∃ va ∈ vas, path = (pageKey va).path ∧ x = ptIndex va

namespace MappedPages

theorem nil (h : KernelTree base) (hcounted : base.allocator.Counted) : MappedPages base base [] := by
  refine ⟨.refl h, hcounted, ?_, by simp, by simp, .nil, ?_⟩
  · intro path i w c _ hnone hw
    rw [hnone] at hw
    cases hw
  · intro path x _ hnone hne
    exact absurd hnone hne

theorem pageEntry_kept (hchanged : ∀ start i, m.entries start i ≠ base.entries start i →
    start ++ [i] <+: (pageKey va).path ++ [ptIndex va]) {va' : Word} (hne : pageKey va' ≠ pageKey va) :
    m.pageEntry va' = base.pageEntry va' := by
  by_contra h
  exact hne (PageKey.eq_of_prefix (hchanged _ _ h))

theorem map (h : MappedPages base m vas) (hsucceeds : (m.mapPage va pa flags).1 = true) :
    MappedPages base (m.mapPage va pa flags).2 (vas ++ [va]) := by
  have hmapping := mapPage_spec h.isOver.tree h.counted va pa flags
  generalize m.mapPage va pa flags = result at hsucceeds hmapping
  obtain ⟨haccepts, -, hnone, -⟩ := hmapping.succeeds.mp hsucceeds
  have hnew : ∀ va' ∈ vas, pageKey va' ≠ pageKey va := by
    intro va' hmem heq
    refine (h.added va' hmem).2 ?_
    unfold Machine.pageEntry
    rw [show ptIndex va' = ptIndex va from congrArg PageKey.pt heq, heq]
    exact hnone
  refine ⟨h.isOver.trans hmapping.isOver, hmapping.counted, hmapping.tight hsucceeds h.tight, ?_, ?_, ?_, ?_⟩
  · intro va' hmem
    rcases List.mem_append.mp hmem with hmem | hmem
    · exact h.aligned va' hmem
    · rw [List.mem_singleton.mp hmem]
      exact (acceptsPage_iff.mp haccepts).1
  · intro va' hmem
    rcases List.mem_append.mp hmem with hmem | hmem
    · rw [pageEntry_kept hmapping.within (hnew va' hmem)]
      exact h.added va' hmem
    · rw [List.mem_singleton.mp hmem]
      refine ⟨h.isOver.overlay.base_none hnone, ?_⟩
      unfold Machine.pageEntry
      rw [hmapping.mapped hsucceeds]
      exact Option.some_ne_none _
  · rw [List.pairwise_append]
    refine ⟨h.distinct, List.pairwise_singleton _ _, fun va' hmem va'' hlast => ?_⟩
    rw [List.mem_singleton.mp hlast]
    exact hnew va' hmem
  · intro path x hpath hbase hsome
    by_cases hold : result.2.entries path x = m.entries path x
    · rw [hold] at hsome
      obtain ⟨va', hmem, hat⟩ := h.only path x hpath hbase hsome
      exact ⟨va', List.mem_append_left _ hmem, hat⟩
    · have hlength : (path ++ [x]).length = ((pageKey va).path ++ [ptIndex va]).length := by
        rw [List.length_append, List.length_append, hpath]
        rfl
      have heq := (hmapping.within path x hold).eq_of_length hlength
      obtain ⟨hpaths, hx⟩ := List.append_inj' heq rfl
      exact ⟨va, List.mem_append_right _ (List.mem_singleton_self va), hpaths, by simpa using hx⟩

end MappedPages

section Rollback

theorem rollback_fewer (h : KernelTree m) (hw : (m.rollback vas).entries start i = some w) :
    m.entries start i = some w := by
  induction vas generalizing m with
  | nil => exact hw
  | cons va vas ih => exact (unmapPage_spec h va).fewer start i w (ih (unmapPage_spec h va).tree hw)

theorem rollback_kept (h : KernelTree m) (hoff : ∀ va ∈ vas, ¬start ++ [i] <+: (pageKey va).path ++ [ptIndex va]) :
    (m.rollback vas).entries start i = m.entries start i := by
  induction vas generalizing m with
  | nil => rfl
  | cons va vas ih =>
    have hunmapping := unmapPage_spec h va
    have hstep : (m.unmapPage va).2.entries start i = m.entries start i := by
      by_contra hchanged
      exact hoff va List.mem_cons_self (hunmapping.within start i hchanged)
    exact (ih hunmapping.tree fun va' hmem => hoff va' (List.mem_cons_of_mem va hmem)).trans hstep

theorem rollback_restored (hbase : KernelTree base) (h : Over base m)
    (htight : Tight pageFormat 3 base.entries m.entries) (haligned : ∀ va ∈ vas, isPageAligned va = true)
    (hnew : ∀ va ∈ vas, base.pageEntry va = none) (hfilled : ∀ va ∈ vas, Filled base (pageKey va).path)
    (honly : ∀ path x, path.length = 3 → base.entries path x = none → m.entries path x ≠ none →
      ∃ va ∈ vas, path = (pageKey va).path ∧ x = ptIndex va) : Restored base (m.rollback vas) := by
  induction vas generalizing m with
  | nil =>
    refine h.restored_of_no_pages hbase htight fun path x hlast hnone => ?_
    by_contra hsome
    obtain ⟨va, hmem, -⟩ := honly path x hlast hnone hsome
    cases hmem
  | cons va vas ih =>
    have hunmapping := unmapPage_spec h.tree va
    have hmem : ∀ va' ∈ vas, va' ∈ va :: vas := fun va' => List.mem_cons_of_mem va
    have hrest : ∀ n : Machine, (∀ path x w, n.entries path x = some w → m.entries path x = some w) →
        n.pageEntry va = none → ∀ path x, path.length = 3 → base.entries path x = none → n.entries path x ≠ none →
        ∃ va' ∈ vas, path = (pageKey va').path ∧ x = ptIndex va' := by
      intro n hfewer hgone path x hlast hnone hsome
      obtain ⟨w, hw⟩ := Option.ne_none_iff_exists'.mp hsome
      obtain ⟨va', hmem', hpath, hx⟩ := honly path x hlast hnone (hfewer path x w hw ▸ Option.some_ne_none w)
      rcases List.mem_cons.mp hmem' with rfl | hmem'
      · subst hpath hx
        exact absurd hgone hsome
      · exact ⟨va', hmem', hpath, hx⟩
    by_cases hentry : m.pageEntry va = none
    · have hsame := hunmapping.refused (Or.inr hentry)
      show Restored base ((m.unmapPage va).2.rollback vas)
      rw [hsame]
      exact ih h htight (fun va' hva' => haligned va' (hmem va' hva')) (fun va' hva' => hnew va' (hmem va' hva'))
        (fun va' hva' => hfilled va' (hmem va' hva')) (hrest m (fun _ _ _ hw => hw) hentry)
    · have haligned' := haligned va List.mem_cons_self
      obtain ⟨hsucceeds, hover⟩ := hunmapping.isOver haligned' hentry base h (hnew va List.mem_cons_self)
        (Or.inr (hfilled va List.mem_cons_self))
      exact ih hover (hunmapping.tight hsucceeds htight) (fun va' hva' => haligned va' (hmem va' hva'))
        (fun va' hva' => hnew va' (hmem va' hva')) (fun va' hva' => hfilled va' (hmem va' hva'))
        (hrest _ hunmapping.fewer (hunmapping.gone haligned'))

theorem filled_of_rollback (h : Over base m) (haligned : ∀ va ∈ vas, isPageAligned va = true)
    (hadded : ∀ va ∈ vas, base.pageEntry va = none ∧ m.pageEntry va ≠ none)
    (hdistinct : vas.Pairwise fun va va' => pageKey va ≠ pageKey va')
    (hback : (m.rollback vas).entries = base.entries) : ∀ va ∈ vas, Filled base (pageKey va).path := by
  -- where the base comes back, its tables on the way to the pages have entries: an empty one would have been
  -- freed with the last page below it
  induction vas generalizing m with
  | nil => exact fun va hmem => by cases hmem
  | cons va vas ih =>
    have hunmapping := unmapPage_spec h.tree va
    have hback : ((m.unmapPage va).2.rollback vas).entries = base.entries := hback
    obtain ⟨hnew, hentry⟩ := hadded va List.mem_cons_self
    obtain ⟨hothers, hdistinct⟩ := List.pairwise_cons.mp hdistinct
    have hkeeps : Keeps base (m.unmapPage va).2 := by
      intro path x w hw
      rw [← hback] at hw
      exact rollback_fewer hunmapping.tree hw
    obtain ⟨hsucceeds, hover⟩ :=
      hunmapping.isOver (haligned va List.mem_cons_self) hentry base h hnew (Or.inl hkeeps)
    have hrest : ∀ va' ∈ vas, Filled base (pageKey va').path := by
      refine ih hover (fun va' hmem => haligned va' (List.mem_cons_of_mem va hmem)) ?_ hdistinct hback
      intro va' hmem
      rw [MappedPages.pageEntry_kept hunmapping.within (hothers va' hmem).symm]
      exact hadded va' (List.mem_cons_of_mem va hmem)
    intro va' hmem
    rcases List.mem_cons.mp hmem with rfl | hmem
    · intro start x c hstart hc
      by_cases hlater : ∃ va'' ∈ vas, start ++ [x] <+: (pageKey va'').path
      · obtain ⟨va'', hmem'', hstart''⟩ := hlater
        exact hrest va'' hmem'' start x c hstart'' hc
      · -- No later page is below this table, so what `unmap_page` left in it stays.
        have hlength := hstart.length_le
        obtain ⟨y, w, hw⟩ := hunmapping.filled hsucceeds start x c hstart (hover.table hlength hc)
        refine ⟨y, w, ?_⟩
        rw [← hback, rollback_kept hunmapping.tree]
        · exact hw
        · intro va'' hmem'' hprefix
          refine hlater ⟨va'', hmem'', ?_⟩
          rcases List.prefix_concat_iff.mp hprefix with heq | hshorter
          · rw [(List.append_inj' heq rfl).1]
          · exact (List.prefix_append _ _).trans hshorter
    · exact hrest va' hmem

theorem rollback_short (h : MappedPages base m vas) (hshort : m.RunsShort va pa flags) :
    ((m.mapPage va pa flags).2.rollback vas).entries ≠ base.entries := by
  -- a walk that runs out of pages leaves an entry behind that no unmapping of the other pages takes away
  have hmapping := mapPage_spec h.isOver.tree h.counted va pa flags
  generalize m.mapPage va pa flags = result at hmapping
  intro hback
  have hchanged : ∃ start x, result.2.entries start x ≠ m.entries start x := by
    by_contra hsame
    push Not at hsame
    have hequal : result.2.entries = m.entries := funext fun start => funext fun x => hsame start x
    have hfree := (hmapping.isOver.restored hequal h.isOver.tree).free
    have hcount := hmapping.short hshort
    rw [← hmapping.counted.ncard_free, ← h.counted.ncard_free, hfree] at hcount
    exact absurd hcount (lt_irrefl _)
  obtain ⟨start, x, hne⟩ := hchanged
  have hbefore : m.entries start x = none := by
    cases hold : m.entries start x with
    | none => rfl
    | some w => exact absurd ((hmapping.isOver.overlay.above start x w hold).trans hold.symm) hne
  have hstays : (result.2.rollback vas).entries start x = result.2.entries start x := by
    refine rollback_kept hmapping.isOver.tree fun va' hmem hprefix => ?_
    obtain ⟨w, hw⟩ := Option.ne_none_iff_exists'.mp (h.added va' hmem).2
    obtain ⟨w', hw'⟩ := entries_on_way hw le_rfl hprefix
    rw [hbefore] at hw'
    cases hw'
  rw [hback, h.isOver.overlay.base_none hbefore] at hstays
  exact hne (hstays.symm.trans hbefore.symm)

/-- A failed call of `map_page` and the rollback leave the tables and the free pages of the base, unless the call ran out
of pages on the way or a table of the base on the way to a page was empty. -/
theorem rollback_iff (hbase : KernelTree base) (h : MappedPages base m vas) (hfails : (m.mapPage va pa flags).1 = false) :
    Restored base ((m.mapPage va pa flags).2.rollback vas) ↔
      ¬m.RunsShort va pa flags ∧ ∀ va' ∈ vas, Filled base (pageKey va').path := by
  have hmapping := mapPage_spec h.isOver.tree h.counted va pa flags
  constructor
  · intro hrestored
    have hlong : ¬m.RunsShort va pa flags := fun hshort => rollback_short h hshort hrestored.entries
    have hsame := hmapping.failed hfails hlong
    rw [hsame] at hrestored
    exact ⟨hlong, filled_of_rollback h.isOver h.aligned h.added h.distinct hrestored.entries⟩
  · rintro ⟨hlong, hfilled⟩
    rw [hmapping.failed hfails hlong]
    exact rollback_restored hbase h.isOver h.tight h.aligned (fun va' hmem => (h.added va' hmem).1) hfilled h.only

end Rollback

end Linux95.Memory
