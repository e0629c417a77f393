import Linux95.Memory.KernelMapping

/-! `unmap_page`: it clears the entry of the page and takes down the tables that are left empty. -/

namespace Linux95.Memory
open Base LinkedTables

/-- The way up in `unmap_page`: a table that is empty is unlinked from its parent and freed. -/
def Machine.prune : List (Word × Word × Index) → Machine → Bool × Machine
  | [], m => (true, m)
  | (table, parent, index) :: above, m =>
    if !tableEmpty (m.memory table) then (true, m)
    else
      match (m.writeEntry parent index 0#64).free table with
      | (false, m) => (false, m)
      | (true, m) => prune above m

inductive Chain (m : Machine) : List Index → List (Word × Word × Index) → Prop
  | nil : Chain m [] []
  | concat {path : List Index} {i : Index} {p c : Word} {above : List (Word × Word × Index)}
      (hp : m.table path = some p) (hc : m.table (path ++ [i]) = some c) (habove : Chain m path above) :
      Chain m (path ++ [i]) ((c, p, i) :: above)

variable {base m m' : Machine} {path start : List Index} {i j : Index} {p q c w : Word} {x : Option Word}

section Paths

theorem entries_to_table (hpath : path.length ≤ 3) (hc : m.table path = some c) (hstart : start ++ [i] <+: path) :
    ∃ w, m.entries start i = some w := by
  induction path using List.reverseRecOn generalizing c with
  | nil => simp at hstart
  | append_singleton path j ih =>
    have hpath' := le_of_concat hpath
    rw [table_concat hpath'] at hc
    obtain ⟨w, hw, -⟩ := Option.bind_eq_some_iff.mp hc
    rcases List.prefix_concat_iff.mp hstart with heq | hshorter
    · obtain ⟨rfl, hij⟩ := List.append_inj' heq rfl
      obtain rfl : i = j := by simpa using hij
      exact ⟨w, hw⟩
    · obtain ⟨p, hp, -⟩ := table_of_entries hw
      exact ih hpath' hp hshorter

theorem Edit.table_of_prefix (h : Edit m m' path i x) (hpath : path.length ≤ 3) (hstart : start <+: path) :
    m'.table start = m.table start := by
  induction start using List.reverseRecOn with
  | nil =>
    rw [table_nil, table_nil, h.rootPhysical]
  | append_singleton start j ih =>
    have hlength := hstart.length_le
    rw [List.length_append, List.length_singleton] at hlength
    rw [table_concat (by omega), table_concat (by omega), h.entries_of_ne]
    rintro rfl
    exact absurd hlength (Nat.not_succ_le_self _)

theorem Chain.edit {above : List (Word × Word × Index)} (h : Chain m start above) (hedit : Edit m m' path i x)
    (hpath : path.length ≤ 3) (hstart : start <+: path) : Chain m' start above := by
  induction h with
  | nil => exact .nil
  | concat hp hc _ ih =>
    have hshorter := (List.prefix_append _ _).trans hstart
    refine .concat ?_ ?_ (ih hshorter)
    · rw [hedit.table_of_prefix hpath hshorter]
      exact hp
    · rw [hedit.table_of_prefix hpath hstart]
      exact hc

theorem next_on_path (h : start <+: path) : ∃ x, start ++ [x] <+: path ++ [i] := by
  obtain ⟨rest, rfl⟩ := h
  cases rest with
  | nil => exact ⟨i, by rw [List.append_nil]⟩
  | cons x rest => exact ⟨x, ⟨rest ++ [i], by simp⟩⟩

end Paths

def Keeps (base m : Machine) : Prop := ∀ path i w, base.entries path i = some w → m.entries path i = some w

def Filled (m : Machine) (path : List Index) : Prop :=
  ∀ start i c, start ++ [i] <+: path → m.table (start ++ [i]) = some c → ∃ j w, m.entries (start ++ [i]) j = some w

theorem Edit.fewer (h : Edit m m' path i none) (hw : m'.entries start j = some w) : m.entries start j = some w := by
  rw [h.entries] at hw
  by_cases hat : start = path ∧ j = i
  · rw [hat.1, hat.2, store_self] at hw
    cases hw
  · rw [store_of_ne fun hp hj => hat ⟨hp, hj⟩] at hw
    exact hw

theorem Edit.within (h : Edit m m' path i x) (hne : m'.entries start j ≠ m.entries start j) :
    start = path ∧ j = i := by
  by_contra hat
  exact hne (h.entries_of_ne fun hp hj => hat ⟨hp, hj⟩)

structure Pruning (m : Machine) (path : List Index) (result : Bool × Machine) : Prop where
  tree : KernelTree result.2
  kernelRoot : result.2.kernelRoot = m.kernelRoot
  counted : m.allocator.Counted → result.2.allocator.Counted
  fewer : ∀ start i w, result.2.entries start i = some w → m.entries start i = some w
  within : ∀ start i, result.2.entries start i ≠ m.entries start i → start ++ [i] <+: path
  filled : result.1 = true → Filled result.2 path
  isOver : ∀ base, Over base m → Keeps base result.2 ∨ Filled base path → result.1 = true ∧ Over base result.2

theorem Pruning.stop (h : KernelTree m) (hfilled : Filled m path) : Pruning m path (true, m) :=
  ⟨h, rfl, id, fun _ _ _ => id, fun _ _ hne => absurd rfl hne, fun _ => hfilled, fun _ hover _ => ⟨rfl, hover⟩⟩

theorem Over.unlink (h : Over base m) (hpath : path.length < 3) (hp : m.table path = some p)
    (hc : m.table (path ++ [i]) = some c) (hempty : ∀ j, m.entries (path ++ [i]) j = none)
    (hnone : base.entries path i = none) :
    m.allocator.frees c = true ∧ Over base ((m.writeEntry p i 0#64).freePage c) := by
  -- a table that was not in the base goes back to the allocator
  have hlength : (path ++ [i]).length ≤ 3 := by
    rw [List.length_append]
    exact hpath
  obtain ⟨hedit, hpages⟩ := edit_unlink h.tree hp hpath hc hempty
  have hmanaged : c ∈ m.allocator.managed := by
    rcases h.table_cases hlength hc with hbase | ⟨-, hfree⟩
    · rw [table_concat hpath.le, hnone] at hbase
      cases hbase
    · rw [h.managed]
      exact Allocator.free_subset_managed hfree
  exact ⟨Allocator.frees_of_managed hmanaged (h.tree.not_free hlength hc),
    h.edit hedit (hpages hmanaged) hpath.le hnone fun _ w hw => by cases hw⟩

theorem prune_spec {chain : List (Word × Word × Index)} (h : KernelTree m) (hpath : path.length ≤ 3)
    (hchain : Chain m path chain) : Pruning m path (m.prune chain) := by
  induction chain generalizing m path with
  | nil =>
    cases hchain
    refine .stop h fun start i c hstart _ => ?_
    simp at hstart
  | cons head above ih =>
    obtain ⟨c, p, i⟩ := head
    rcases hchain with _ | ⟨hp, hc, habove⟩
    rename_i path
    have hinner : path.length < 3 := by
      rw [List.length_append] at hpath
      exact hpath
    unfold Machine.prune
    -- a table with an entry ends the walk up; an empty one is unlinked and freed
    cases hempty : tableEmpty (m.memory c) with
    | false =>
      refine .stop h fun start j d hstart hd => ?_
      rcases List.prefix_concat_iff.mp hstart with heq | hshorter
      · rw [heq]
        by_contra hnone
        push Not at hnone
        rw [(tableEmpty_iff hpath hc).mpr fun j => Option.eq_none_iff_forall_ne_some.mpr (hnone j)] at hempty
        cases hempty
      · obtain ⟨x, hx⟩ := next_on_path (i := i) hshorter
        exact ⟨x, entries_to_table hpath hc hx⟩
    | true =>
      have hempty := (tableEmpty_iff hpath hc).mp hempty
      obtain ⟨hedit, -⟩ := edit_unlink h hp hinner hc hempty
      -- The link is not one of the base, where the links are kept or their tables have entries.
      have hnew : ∀ base result, Over base m →
          (∀ start j w, result.entries start j = some w →
            ((m.writeEntry p i 0#64).freePage c).entries start j = some w) →
          Keeps base result ∨ Filled base (path ++ [i]) → base.entries path i = none := by
        intro base result hover hfewer hcause
        cases hbase : base.entries path i with
        | none => rfl
        | some w =>
          rcases hcause with hkeeps | hfilled
          · have hgone := hfewer path i w (hkeeps path i w hbase)
            rw [hedit.entries_self] at hgone
            cases hgone
          · have hlink : base.table (path ++ [i]) = some c := by
              rw [table_concat hinner.le, hover.overlay.above path i w hbase] at hc
              rw [table_concat hinner.le, hbase]
              exact hc
            obtain ⟨j, w', hw'⟩ := hfilled path i c List.prefix_rfl hlink
            have hbelow := hover.overlay.above _ j w' hw'
            rw [hempty j] at hbelow
            cases hbelow
      rw [Bool.not_true, if_neg Bool.false_ne_true]
      show Pruning m (path ++ [i]) (match (m.allocator.frees c, (m.writeEntry p i 0#64).freePage c) with
        | (false, m) => (false, m)
        | (true, m) => m.prune above)
      cases hfrees : m.allocator.frees c with
      | false =>
        refine ⟨hedit.tree, hedit.kernelRoot, fun hcounted => hcounted.freePage c, fun _ _ _ => hedit.fewer, ?_,
          fun hfalse => (by cases hfalse), ?_⟩
        · intro start j hne
          obtain ⟨rfl, rfl⟩ := hedit.within hne
          exact List.prefix_rfl
        · intro base hover hcause
          have hnone := hnew base ((m.writeEntry p i 0#64).freePage c) hover (fun _ _ _ h => h) hcause
          rw [(hover.unlink hinner hp hc hempty hnone).1] at hfrees
          cases hfrees
      | true =>
        have hrest := ih hedit.tree hinner.le (habove.edit hedit hinner.le List.prefix_rfl)
        dsimp only
        generalize ((m.writeEntry p i 0#64).freePage c).prune above = result at hrest
        refine ⟨hrest.tree, hrest.kernelRoot.trans hedit.kernelRoot, fun hcounted => hrest.counted (hcounted.freePage c),
          fun start j w hw => hedit.fewer (hrest.fewer start j w hw), ?_, ?_, ?_⟩
        · intro start j hne
          by_cases hbelow : result.2.entries start j = ((m.writeEntry p i 0#64).freePage c).entries start j
          · rw [hbelow] at hne
            obtain ⟨rfl, rfl⟩ := hedit.within hne
            exact List.prefix_rfl
          · exact (hrest.within start j hbelow).trans (List.prefix_append _ _)
        · intro htrue start j d hstart hd
          rcases List.prefix_concat_iff.mp hstart with heq | hshorter
          · rw [heq, table_concat hinner.le] at hd
            obtain ⟨w, hw, -⟩ := Option.bind_eq_some_iff.mp hd
            have hgone := hrest.fewer path i w hw
            rw [hedit.entries_self] at hgone
            cases hgone
          · exact hrest.filled htrue start j d hshorter hd
        · intro base hover hcause
          have hnone := hnew base _ hover hrest.fewer hcause
          refine hrest.isOver base (hover.unlink hinner hp hc hempty hnone).2 (hcause.imp_right fun hfilled => ?_)
          exact fun start j d hstart => hfilled start j d (hstart.trans (List.prefix_append _ _))

section Calls

theorem link_cases (w : Word) : (!has w pagePresent || has w pageHuge) = true ∧ link w = none ∨
    (!has w pagePresent || has w pageHuge) = false ∧ link w = some (w &&& addressMask) := by
  unfold link
  cases has w pagePresent <;> cases has w pageHuge <;> simp

theorem table_next (hpath : path.length ≤ 3) (hp : m.table path = some p) : m.table (path ++ [i]) = link (m.memory p i) := by
  rw [table_concat hpath, entries_eq hpath hp]
  cases hpresent : has (m.memory p i) pagePresent with
  | true => rfl
  | false => exact (pageFormat.link_of_absent hpresent).symm

theorem entries_of_table_none (hnone : m.table path = none) (i : Index) : m.entries path i = none :=
  entries_of_follow_none (F := pageFormat) hnone i

theorem table_none_append (hpath : (path ++ [i]).length ≤ 3) (hnone : m.table path = none) :
    m.table (path ++ [i]) = none := by
  rw [table_concat (le_of_concat hpath), entries_of_table_none hnone]
  rfl

theorem unmapPage_cases (m : Machine) (va : Word) :
    (isPageAligned va = false ∨ m.entries (pageKey va).path (ptIndex va) = none) ∧ m.unmapPage va = (false, m) ∨
      isPageAligned va = true ∧ ∃ pt chain w, m.entries (pageKey va).path (ptIndex va) = some w ∧
        m.table (pageKey va).path = some pt ∧ Chain m (pageKey va).path chain ∧
        m.unmapPage va = (m.writeEntry pt (ptIndex va) 0#64).prune chain := by
  have hpath : (pageKey va).path = [pml4Index va] ++ [pdptIndex va] ++ [pdIndex va] := rfl
  rw [hpath]
  unfold Machine.unmapPage
  cases haligned : isPageAligned va with
  | false => exact Or.inl ⟨Or.inl rfl, rfl⟩
  | true =>
    rw [Bool.not_true, if_neg Bool.false_ne_true]
    dsimp only
    have hlength₃ : ([pml4Index va] ++ [pdptIndex va] ++ [pdIndex va]).length ≤ 3 := le_rfl
    have hlength₂ := le_of_concat hlength₃
    have hlength₁ := le_of_concat hlength₂
    have hroot := table_nil m
    have hpml4 : m.table ([] ++ [pml4Index va]) = link (m.memory m.rootPhysical (pml4Index va)) :=
      table_next (Nat.zero_le 3) hroot
    rw [List.nil_append] at hpml4
    rcases link_cases (m.memory m.rootPhysical (pml4Index va)) with ⟨hbits, hlink⟩ | ⟨hbits, hlink⟩
    · rw [hlink] at hpml4
      rw [if_pos hbits]
      have hnone := table_none_append hlength₃ (table_none_append hlength₂ hpml4)
      exact Or.inl ⟨Or.inr (entries_of_table_none hnone _), rfl⟩
    rw [hlink] at hpml4
    rw [hbits, if_neg Bool.false_ne_true]
    generalize m.memory m.rootPhysical (pml4Index va) &&& addressMask = pdpt at hpml4 ⊢
    have hpdpt := table_next (i := pdptIndex va) hlength₁ hpml4
    rcases link_cases (m.memory pdpt (pdptIndex va)) with ⟨hbits, hlink⟩ | ⟨hbits, hlink⟩
    · rw [hlink] at hpdpt
      rw [if_pos hbits]
      exact Or.inl ⟨Or.inr (entries_of_table_none (table_none_append hlength₃ hpdpt) _), rfl⟩
    rw [hlink] at hpdpt
    rw [hbits, if_neg Bool.false_ne_true]
    generalize m.memory pdpt (pdptIndex va) &&& addressMask = pd at hpdpt ⊢
    have hpd := table_next (i := pdIndex va) hlength₂ hpdpt
    rcases link_cases (m.memory pd (pdIndex va)) with ⟨hbits, hlink⟩ | ⟨hbits, hlink⟩
    · rw [hlink] at hpd
      rw [if_pos hbits]
      exact Or.inl ⟨Or.inr (entries_of_table_none hpd _), rfl⟩
    rw [hlink] at hpd
    rw [hbits, if_neg Bool.false_ne_true]
    generalize m.memory pd (pdIndex va) &&& addressMask = pt at hpd ⊢
    cases hpresent : has (m.memory pt (ptIndex va)) pagePresent with
    | false => exact Or.inl ⟨Or.inr ((entries_eq_none hlength₃ hpd).mpr hpresent), rfl⟩
    | true =>
      refine Or.inr ⟨rfl, pt, [(pt, pd, pdIndex va), (pd, pdpt, pdptIndex va), (pdpt, m.rootPhysical, pml4Index va)],
        m.memory pt (ptIndex va), entries_eq_some hlength₃ hpd hpresent, hpd, ?_, ?_⟩
      · have hfirst : Chain m ([] ++ [pml4Index va]) [(pdpt, m.rootPhysical, pml4Index va)] := .concat hroot hpml4 .nil
        exact .concat hpdpt hpd (.concat hpml4 hpdpt hfirst)
      · rw [Bool.not_true, if_neg Bool.false_ne_true]
        rfl

structure Unmapping (m : Machine) (va : Word) (result : Bool × Machine) : Prop where
  tree : KernelTree result.2
  kernelRoot : result.2.kernelRoot = m.kernelRoot
  counted : m.allocator.Counted → result.2.allocator.Counted
  fewer : ∀ start i w, result.2.entries start i = some w → m.entries start i = some w
  within : ∀ start i, result.2.entries start i ≠ m.entries start i → start ++ [i] <+: (pageKey va).path ++ [ptIndex va]
  refused : isPageAligned va = false ∨ m.entries (pageKey va).path (ptIndex va) = none → result = (false, m)
  gone : isPageAligned va = true → result.2.entries (pageKey va).path (ptIndex va) = none
  filled : result.1 = true → Filled result.2 (pageKey va).path
  isOver : isPageAligned va = true → m.entries (pageKey va).path (ptIndex va) ≠ none → ∀ base, Over base m →
    base.entries (pageKey va).path (ptIndex va) = none → Keeps base result.2 ∨ Filled base (pageKey va).path →
    result.1 = true ∧ Over base result.2

theorem unmapPage_spec (h : KernelTree m) (va : Word) : Unmapping m va (m.unmapPage va) := by
  have hlast : (pageKey va).path.length = 3 := rfl
  rcases unmapPage_cases m va with ⟨hrefused, heq⟩ | ⟨haligned, pt, chain, w, hw, hpt, hchain, heq⟩
  · rw [heq]
    refine ⟨h, rfl, id, fun _ _ _ => id, fun _ _ hne => absurd rfl hne, fun _ => rfl, ?_, fun htrue => (by cases htrue), ?_⟩
    · intro haligned
      exact hrefused.resolve_left (by rw [haligned]; exact Bool.noConfusion)
    · intro haligned hsome
      rcases hrefused with hunaligned | hnone
      · rw [haligned] at hunaligned
        cases hunaligned
      · exact absurd hnone hsome
  · obtain ⟨hedit, hpages⟩ := edit_leaf h hpt hlast (ptIndex va) 0#64 (Or.inr rfl)
    have hedit : Edit m (m.writeEntry pt (ptIndex va) 0#64) (pageKey va).path (ptIndex va) none := hedit
    have hrest := prune_spec hedit.tree hlast.le (hchain.edit hedit hlast.le List.prefix_rfl)
    rw [heq]
    generalize (m.writeEntry pt (ptIndex va) 0#64).prune chain = result at hrest
    refine ⟨hrest.tree, hrest.kernelRoot, hrest.counted, fun start i w hw => hedit.fewer (hrest.fewer start i w hw),
      ?_, ?_, ?_, hrest.filled, ?_⟩
    · intro start i hne
      by_cases hbelow : result.2.entries start i = (m.writeEntry pt (ptIndex va) 0#64).entries start i
      · rw [hbelow] at hne
        obtain ⟨rfl, rfl⟩ := hedit.within hne
        exact List.prefix_rfl
      · exact (hrest.within start i hbelow).trans (List.prefix_append _ _)
    · rintro (hunaligned | hnone)
      · rw [haligned] at hunaligned
        cases hunaligned
      · rw [hw] at hnone
        cases hnone
    · intro _
      cases hleft : result.2.entries (pageKey va).path (ptIndex va) with
      | none => rfl
      | some w' =>
        have hcleared := hrest.fewer _ _ w' hleft
        rw [hedit.entries_self] at hcleared
        cases hcleared
    · intro _ _ base hover hnone hcause
      refine hrest.isOver base (hover.edit hedit hpages hlast.le hnone fun hless => absurd hlast hless.ne) hcause

end Calls

end Linux95.Memory
