import Linux95.Memory.FreePages
import Linux95.Memory.KernelOverlay

/-! `map_page`: when it succeeds, and what it leaves behind when it does not. -/

namespace Linux95.Memory
open Base LinkedTables

def missing (memory : PhysicalMemory) : List Index → Word → Nat
  | [], _ => 0
  | i :: rest, table =>
    let entry := memory table i
    if !has entry pagePresent then rest.length + 1
    else if has entry pageHuge then 0
    else missing memory rest (entry &&& addressMask)

def blocked (memory : PhysicalMemory) : List Index → Word → Bool
  | [], _ => false
  | i :: rest, table =>
    let entry := memory table i
    if !has entry pagePresent then false
    else if has entry pageHuge then true
    else blocked memory rest (entry &&& addressMask)

namespace Machine

def descend : List Index → Word → Machine → Option Word × Machine
  | [], table, m => (some table, m)
  | i :: rest, table, m =>
    match m.childTable table i true with
    | (none, m) => (none, m)
    | (some child, m) => descend rest child m

def missingTables (m : Machine) (va : Word) : Nat := missing m.memory (pageKey va).path m.rootPhysical

def inHugePage (m : Machine) (va : Word) : Bool := blocked m.memory (pageKey va).path m.rootPhysical

end Machine

variable {m m' : Machine} {path rest : List Index} {i j : Index} {p q c w : Word}

section Entries

theorem entry_cases (w : Word) : has w pagePresent = false ∨
    has w pagePresent = true ∧ has w pageHuge = true ∧ link w = none ∨
    has w pagePresent = true ∧ has w pageHuge = false ∧ link w = some (w &&& addressMask) := by
  unfold link
  cases has w pagePresent <;> cases has w pageHuge <;> simp

theorem walk_absent (rest : List Index) {memory : PhysicalMemory} (h : has (memory p i) pagePresent = false) :
    missing memory (i :: rest) p = rest.length + 1 ∧ blocked memory (i :: rest) p = false := by
  unfold missing blocked
  dsimp only
  rw [h]
  exact ⟨rfl, rfl⟩

theorem walk_huge (rest : List Index) {memory : PhysicalMemory} (h : has (memory p i) pagePresent = true)
    (hhuge : has (memory p i) pageHuge = true) :
    missing memory (i :: rest) p = 0 ∧ blocked memory (i :: rest) p = true := by
  unfold missing blocked
  dsimp only
  rw [h, hhuge]
  exact ⟨rfl, rfl⟩

theorem walk_link (rest : List Index) {memory : PhysicalMemory} (h : link (memory p i) = some c) :
    missing memory (i :: rest) p = missing memory rest c ∧ blocked memory (i :: rest) p = blocked memory rest c := by
  rcases entry_cases (memory p i) with habsent | ⟨-, -, hnone⟩ | ⟨hpresent, hhuge, hlink⟩
  · rw [present_of_link h] at habsent
    cases habsent
  · rw [h] at hnone
    cases hnone
  · obtain rfl := Option.some.inj (hlink.symm.trans h)
    rw [missing, blocked, hpresent, hhuge]
    exact ⟨rfl, rfl⟩

theorem walk_blank (rest : List Index) {memory : PhysicalMemory} (h : ∀ j, has (memory c j) pagePresent = false) :
    missing memory rest c = rest.length ∧ blocked memory rest c = false := by
  cases rest with
  | nil => exact ⟨rfl, rfl⟩
  | cons i rest => exact walk_absent rest (h i)

theorem childTable_huge (h : has (m.memory p i) pagePresent = true) (hhuge : has (m.memory p i) pageHuge = true) :
    m.childTable p i true = (none, m) := by
  unfold Machine.childTable
  rw [if_pos h, if_pos hhuge]

theorem childTable_link (h : link (m.memory p i) = some c) : m.childTable p i true = (some c, m) := by
  rcases entry_cases (m.memory p i) with habsent | ⟨-, -, hnone⟩ | ⟨hpresent, hhuge, hlink⟩
  · rw [present_of_link h] at habsent
    cases habsent
  · rw [h] at hnone
    cases hnone
  · obtain rfl := Option.some.inj (hlink.symm.trans h)
    unfold Machine.childTable
    rw [if_pos hpresent, hhuge, if_neg Bool.false_ne_true]

theorem childTable_absent (hcounted : m.allocator.Counted) (h : has (m.memory p i) pagePresent = false) :
    m.allocator.freeCount = 0 ∧ m.childTable p i true = (none, m) ∨
      ∃ c allocator, m.childTable p i true = (some c, linkTable m allocator p i c) ∧ c ∈ m.allocator.free ∧
        allocator.free = m.allocator.free \ {c} ∧ allocator.managed = m.allocator.managed ∧ allocator.Counted ∧
        allocator.freeCount + 1 = m.allocator.freeCount := by
  have habsent : ¬has (m.memory p i) pagePresent = true := by
    rw [h]
    decide
  unfold Machine.childTable Machine.allocateTable Machine.allocatePage
  rw [if_neg habsent, Bool.not_true, if_neg Bool.false_ne_true]
  rcases hcounted.allocatePage with ⟨hzero, hnone⟩ | ⟨c, allocator, hsome, hc, hfree, hmanaged, hcounted', hcount⟩
  · rw [hnone]
    exact Or.inl ⟨hzero, rfl⟩
  · rw [hsome]
    exact Or.inr ⟨c, allocator, rfl, hc, hfree, hmanaged, hcounted', hcount⟩

end Entries

structure Descent (m : Machine) (path rest : List Index) (p : Word) (result : Option Word × Machine) : Prop where
  isOver : Over m result.2
  counted : result.2.allocator.Counted
  within : ∀ start i, result.2.entries start i ≠ m.entries start i → path <+: start ∧ start ++ [i] <+: path ++ rest
  count : result.2.allocator.freeCount + min (missing m.memory rest p) m.allocator.freeCount = m.allocator.freeCount
  lost : result.1 = none ↔ blocked m.memory rest p = true ∨ m.allocator.freeCount < missing m.memory rest p
  found : ∀ c, result.1 = some c → result.2.table (path ++ rest) = some c
  still : min (missing m.memory rest p) m.allocator.freeCount = 0 → result.2 = m

theorem Descent.stop (h : KernelTree m) (hcounted : m.allocator.Counted) {found : Option Word}
    (hzero : missing m.memory rest p = 0 ∨ m.allocator.freeCount = 0)
    (hlost : found = none ↔ blocked m.memory rest p = true ∨ m.allocator.freeCount < missing m.memory rest p)
    (hfound : ∀ c, found = some c → m.table (path ++ rest) = some c) : Descent m path rest p (found, m) := by
  have hmin : min (missing m.memory rest p) m.allocator.freeCount = 0 := by omega
  refine ⟨.refl h, hcounted, fun _ _ hne => absurd rfl hne, ?_, hlost, hfound, fun _ => rfl⟩
  rw [hmin]
  rfl

theorem Descent.linked {result : Option Word × Machine} (hlink : link (m.memory p i) = some c)
    (h : Descent m (path ++ [i]) rest c result) : Descent m path (i :: rest) p result := by
  obtain ⟨hmissing, hblocked⟩ := walk_link rest hlink
  have hpaths : path ++ i :: rest = path ++ [i] ++ rest := by rw [List.append_assoc, List.singleton_append]
  refine ⟨h.isOver, h.counted, ?_, ?_, ?_, ?_, ?_⟩
  · intro start j hne
    obtain ⟨hstart, hend⟩ := h.within start j hne
    rw [hpaths]
    exact ⟨(List.prefix_append path [i]).trans hstart, hend⟩
  · rw [hmissing]
    exact h.count
  · rw [hmissing, hblocked]
    exact h.lost
  · rw [hpaths]
    exact h.found
  · rw [hmissing]
    exact h.still

theorem Descent.built {result : Option Word × Machine} (habsent : has (m.memory p i) pagePresent = false)
    (hover : Over m m') (hedit : Edit m m' path i (some w))
    (hcount : m'.allocator.freeCount + 1 = m.allocator.freeCount) (hblank : ∀ j, has (m'.memory c j) pagePresent = false)
    (h : Descent m' (path ++ [i]) rest c result) : Descent m path (i :: rest) p result := by
  -- an absent entry is linked to a new table, and the walk goes on there: every further table is missing
  obtain ⟨hmissing, hblocked⟩ := walk_absent rest habsent
  obtain ⟨hmissing', hblocked'⟩ := walk_blank rest hblank
  have hpaths : path ++ i :: rest = path ++ [i] ++ rest := by rw [List.append_assoc, List.singleton_append]
  have hlost := h.lost
  have hcount' := h.count
  rw [hmissing', hblocked'] at hlost
  rw [hmissing'] at hcount'
  refine ⟨hover.trans h.isOver, h.counted, ?_, ?_, ?_, ?_, ?_⟩
  · intro start j hne
    rw [hpaths]
    by_cases hbelow : result.2.entries start j = m'.entries start j
    · have hat : start = path ∧ j = i := by
        by_contra hat
        exact hne (hbelow.trans (hedit.entries_of_ne fun hp hj => hat ⟨hp, hj⟩))
      rw [hat.1, hat.2]
      exact ⟨List.prefix_rfl, List.prefix_append _ _⟩
    · obtain ⟨hstart, hend⟩ := h.within start j hbelow
      exact ⟨(List.prefix_append path [i]).trans hstart, hend⟩
  · rw [hmissing]
    omega
  · rw [hlost, hmissing, hblocked]
    have hless : m'.allocator.freeCount < rest.length ↔ m.allocator.freeCount < rest.length + 1 := by omega
    rw [hless]
  · rw [hpaths]
    exact h.found
  · rw [hmissing]
    omega

theorem descend_spec (h : KernelTree m) (hcounted : m.allocator.Counted) (hpath : (path ++ rest).length ≤ 3)
    (hp : m.table path = some p) : Descent m path rest p (m.descend rest p) := by
  induction rest generalizing m path p with
  | nil =>
    refine .stop h hcounted (Or.inl rfl) ⟨?_, ?_⟩ ?_
    · intro hnone
      cases hnone
    · rintro (hblocked | hless)
      · cases hblocked
      · exact absurd hless (Nat.not_lt_zero _)
    · intro c hc
      obtain rfl := Option.some.inj hc
      rw [List.append_nil]
      exact hp
  | cons i rest ih =>
    have hpaths : path ++ i :: rest = path ++ [i] ++ rest := by rw [List.append_assoc, List.singleton_append]
    have hinner : path.length < 3 := by
      rw [List.length_append, List.length_cons] at hpath
      omega
    rw [hpaths] at hpath
    unfold Machine.descend
    rcases entry_cases (m.memory p i) with habsent | ⟨hpresent, hhuge, -⟩ | ⟨hpresent, -, hlink⟩
    · obtain ⟨hmissing, hblocked⟩ := walk_absent rest habsent
      have hempty : m.entries path i = none := (entries_eq_none hinner.le hp).mpr habsent
      rcases childTable_absent hcounted habsent with
        ⟨hzero, hnone⟩ | ⟨c, allocator, hsome, hc, hfree, hmanaged, hcounted', hcount⟩
      · rw [hnone]
        refine .stop h hcounted (Or.inr hzero) ⟨fun _ => Or.inr ?_, fun _ => rfl⟩ fun c hc => by cases hc
        rw [hmissing, hzero]
        exact Nat.succ_pos _
      · obtain ⟨hedit, hpages⟩ := edit_link h hp hinner hempty hc hfree hmanaged
        have hlink := link_kernelEntry (Allocator.managed_mask (Allocator.free_subset_managed hc))
        have hover : Over m (linkTable m allocator p i c) := by
          refine (Over.refl h).edit hedit hpages hinner.le hempty fun _ w hw => ?_
          obtain rfl := Option.some.inj hw
          exact ⟨c, hlink⟩
        have htable : (linkTable m allocator p i c).table (path ++ [i]) = some c := by
          rw [table_concat hinner.le, hedit.entries_self]
          exact hlink
        have hpc : p ≠ c := by
          rintro rfl
          exact h.not_free hinner.le hp hc
        have hblank : ∀ j, has ((linkTable m allocator p i c).memory c j) pagePresent = false := by
          intro j
          have hzero : (linkTable m allocator p i c).memory c j = 0#64 := by
            show store _ p i _ c j = _
            rw [store_of_ne fun heq => absurd heq.symm hpc, Function.update_self]
          rw [hzero]
          rfl
        rw [hsome]
        exact .built habsent hover hedit hcount hblank (ih hedit.tree hcounted' hpath htable)
    · obtain ⟨hmissing, hblocked⟩ := walk_huge rest hpresent hhuge
      rw [childTable_huge hpresent hhuge]
      exact .stop h hcounted (Or.inl hmissing) ⟨fun _ => Or.inl hblocked, fun _ => rfl⟩ fun c hc => by cases hc
    · have htable : m.table (path ++ [i]) = some (m.memory p i &&& addressMask) := by
        rw [table_concat hinner.le, entries_eq_some hinner.le hp hpresent]
        exact hlink
      rw [childTable_link hlink]
      exact .linked hlink (ih h hcounted hpath htable)

section Walks

theorem missing_of_blocked {memory : PhysicalMemory} (h : blocked memory rest p = true) : missing memory rest p = 0 := by
  induction rest generalizing p with
  | nil => rfl
  | cons i rest ih =>
    rcases entry_cases (memory p i) with habsent | ⟨hpresent, hhuge, -⟩ | ⟨-, -, hlink⟩
    · rw [(walk_absent rest habsent).2] at h
      cases h
    · exact (walk_huge rest hpresent hhuge).1
    · obtain ⟨hmissing, hblocked⟩ := walk_link rest hlink
      rw [hblocked] at h
      rw [hmissing]
      exact ih h

theorem walk_table (rest : List Index) (hp : m.table path = some p) (hpath : (path ++ rest).length ≤ 3) (hc : m.table (path ++ rest) = some c) :
    missing m.memory rest p = 0 ∧ blocked m.memory rest p = false := by
  -- on the way to a table nothing is missing
  induction rest generalizing path p with
  | nil => exact ⟨rfl, rfl⟩
  | cons i rest ih =>
    have hpaths : path ++ i :: rest = path ++ [i] ++ rest := by rw [List.append_assoc, List.singleton_append]
    have hinner : path.length ≤ 3 := by
      rw [List.length_append] at hpath
      omega
    rw [hpaths] at hpath hc
    have hnext : ∃ d, m.table (path ++ [i]) = some d := by
      have happend : m.table (path ++ [i] ++ rest) = (m.table (path ++ [i])).bind fun d => node m.memory d rest :=
        follow_append ..
      rw [happend] at hc
      obtain ⟨d, hd, -⟩ := Option.bind_eq_some_iff.mp hc
      exact ⟨d, hd⟩
    obtain ⟨d, hd⟩ := hnext
    have hlink : link (m.memory p i) = some d := by
      have hfollow : m.table (path ++ [i]) = (m.table path).bind fun b => link (m.memory b i) := follow_concat ..
      rw [hfollow, hp] at hd
      exact hd
    obtain ⟨hmissing, hblocked⟩ := walk_link rest hlink
    rw [hmissing, hblocked]
    exact ih hd hpath hc

end Walks

def kernelLeaf (pa flags : Word) : Word := pa &&& addressMask ||| flags &&& Machine.allowedFlags ||| pagePresent

theorem kernelLeaf_has (pa flags : Word) :
    has (kernelLeaf pa flags) pagePresent = true ∧ kernelLeaf pa flags &&& addressMask = pa &&& addressMask := by
  have hmask : pa &&& addressMask &&& addressMask = pa &&& addressMask := by rw [BitVec.and_assoc, BitVec.and_self]
  have hflags : (flags &&& Machine.allowedFlags ||| pagePresent) &&& addressMask = 0#64 := by
    rw [BitVec.and_or_distrib_right, BitVec.and_assoc,
      show Machine.allowedFlags &&& addressMask = 0#64 by decide, BitVec.and_zero,
      show pagePresent &&& addressMask = 0#64 by decide, BitVec.or_zero]
  have hpresent : has (flags &&& Machine.allowedFlags ||| pagePresent) pagePresent = true := by
    unfold has
    rw [BitVec.and_or_distrib_right, BitVec.and_assoc, show Machine.allowedFlags &&& pagePresent = 0#64 by decide,
      BitVec.and_zero]
    decide
  unfold kernelLeaf
  rw [BitVec.or_assoc, has_or hmask (by decide), or_mask hmask hflags]
  exact ⟨hpresent, rfl⟩

theorem mapPage_eq (m : Machine) (va pa flags : Word) : m.mapPage va pa flags =
    if !m.acceptsPage va pa flags then (false, m)
    else
      match m.descend (pageKey va).path m.rootPhysical with
      | (none, m) => (false, m)
      | (some pt, m) =>
        if has (m.memory pt (ptIndex va)) pagePresent then (false, m)
        else (true, m.writeEntry pt (ptIndex va) (kernelLeaf pa flags)) := by
  unfold Machine.mapPage
  show _ = if _ then _ else match m.descend [pml4Index va, pdptIndex va, pdIndex va] m.rootPhysical with
    | (none, m) => _
    | (some pt, m) => _
  split
  · rfl
  rw [Machine.descend]
  generalize m.childTable m.rootPhysical (pml4Index va) true = result₁
  obtain ⟨_ | pdpt, m₁⟩ := result₁
  · rfl
  dsimp only
  rw [Machine.descend]
  generalize m₁.childTable pdpt (pdptIndex va) true = result₂
  obtain ⟨_ | pd, m₂⟩ := result₂
  · rfl
  dsimp only
  rw [Machine.descend]
  generalize m₂.childTable pd (pdIndex va) true = result₃
  obtain ⟨_ | pt, m₃⟩ := result₃
  · rfl
  rfl

/-- Arguments that are accepted, and free pages for some of the missing tables but not for all. -/
def Machine.RunsShort (m : Machine) (va pa flags : Word) : Prop :=
  m.acceptsPage va pa flags = true ∧ 0 < m.allocator.freeCount ∧ m.allocator.freeCount < m.missingTables va

structure Mapping (m : Machine) (va pa flags : Word) (result : Bool × Machine) : Prop where
  isOver : Over m result.2
  counted : result.2.allocator.Counted
  within : ∀ start i, result.2.entries start i ≠ m.entries start i → start ++ [i] <+: (pageKey va).path ++ [ptIndex va]
  succeeds : result.1 = true ↔ m.acceptsPage va pa flags = true ∧ m.inHugePage va = false ∧
    m.entries (pageKey va).path (ptIndex va) = none ∧ m.missingTables va ≤ m.allocator.freeCount
  mapped : result.1 = true → result.2.entries (pageKey va).path (ptIndex va) = some (kernelLeaf pa flags)
  failed : result.1 = false → ¬m.RunsShort va pa flags → result.2 = m
  short : m.RunsShort va pa flags → result.2.allocator.freeCount < m.allocator.freeCount

theorem Mapping.refuse (h : KernelTree m) (hcounted : m.allocator.Counted) {va pa flags : Word}
    (hcause : m.acceptsPage va pa flags = false ∨
      m.entries (pageKey va).path (ptIndex va) ≠ none ∧ m.missingTables va = 0) :
    Mapping m va pa flags (false, m) := by
  refine ⟨.refl h, hcounted, fun _ _ hne => absurd rfl hne, ⟨fun htrue => (by cases htrue), ?_⟩,
    fun htrue => (by cases htrue), fun _ _ => rfl, ?_⟩
  · rintro ⟨haccepts, -, hnone, -⟩
    rcases hcause with hrejected | ⟨hsome, -⟩
    · rw [haccepts] at hrejected
      cases hrejected
    · exact absurd hnone hsome
  · rintro ⟨haccepts, -, hless⟩
    rcases hcause with hrejected | ⟨-, hzero⟩
    · rw [haccepts] at hrejected
      cases hrejected
    · rw [hzero] at hless
      exact absurd hless (Nat.not_lt_zero _)

theorem mapPage_spec (h : KernelTree m) (hcounted : m.allocator.Counted) (va pa flags : Word) :
    Mapping m va pa flags (m.mapPage va pa flags) := by
  rw [mapPage_eq]
  cases haccepts : m.acceptsPage va pa flags with
  | false => exact .refuse h hcounted (Or.inl haccepts)
  | true =>
    rw [Bool.not_true, if_neg Bool.false_ne_true]
    have hdescent : Descent m [] (pageKey va).path m.rootPhysical (m.descend (pageKey va).path m.rootPhysical) :=
      descend_spec h hcounted le_rfl (table_nil m)
    generalize m.descend (pageKey va).path m.rootPhysical = result at hdescent
    obtain ⟨found, m'⟩ := result
    obtain ⟨hover, hcounted', hwithin, hcount, hlost, hfound, hstill⟩ := hdescent
    have hwithin' : ∀ start i, m'.entries start i ≠ m.entries start i → start ++ [i] <+: (pageKey va).path :=
      fun start i hne => (hwithin start i hne).2
    cases found with
    | none =>
      have hcause := hlost.mp rfl
      refine ⟨hover, hcounted', fun start i hne => (hwithin' start i hne).trans (List.prefix_append _ _),
        ⟨fun htrue => (by cases htrue), ?_⟩, fun htrue => (by cases htrue), ?_, ?_⟩
      · rintro ⟨-, hhuge, -, henough⟩
        rcases hcause with hblocked | hless
        · exact absurd hblocked (Bool.eq_false_iff.mp hhuge)
        · exact absurd henough (Nat.not_le.mpr hless)
      · intro _ hshort
        refine hstill ?_
        rcases hcause with hblocked | hless
        · rw [missing_of_blocked hblocked, Nat.zero_min]
        · have hzero : m.allocator.freeCount = 0 := by
            by_contra hne
            exact hshort ⟨haccepts, Nat.pos_of_ne_zero hne, hless⟩
          rw [hzero, Nat.min_zero]
      · rintro ⟨-, hpos, hless⟩
        have hless : m.allocator.freeCount < missing m.memory (pageKey va).path m.rootPhysical := hless
        show m'.allocator.freeCount < m.allocator.freeCount
        dsimp only at hcount
        omega
    | some pt =>
      have hpt := hfound pt rfl
      rw [List.nil_append] at hpt
      have henough : m.inHugePage va = false ∧ m.missingTables va ≤ m.allocator.freeCount := by
        have hnot := mt hlost.mpr (by simp)
        rw [not_or, Bool.not_eq_true, Nat.not_lt] at hnot
        exact hnot
      -- The entry of the page is below every table of the walk.
      have hleaf : m'.entries (pageKey va).path (ptIndex va) = m.entries (pageKey va).path (ptIndex va) := by
        by_contra hne
        have hlong := (hwithin' _ _ hne).length_le
        rw [List.length_append, List.length_singleton] at hlong
        omega
      have hlast : (pageKey va).path.length = 3 := rfl
      dsimp only
      by_cases hpresent : has (m'.memory pt (ptIndex va)) pagePresent = true
      · have hsome : m.entries (pageKey va).path (ptIndex va) ≠ none := by
          rw [← hleaf, entries_eq_some hlast.le hpt hpresent]
          exact Option.some_ne_none _
        obtain ⟨w, hw⟩ := Option.ne_none_iff_exists'.mp hsome
        obtain ⟨p, hp, -⟩ := table_of_entries hw
        have hzero : missing m.memory (pageKey va).path m.rootPhysical = 0 :=
          (walk_table (pageKey va).path (table_nil m) le_rfl hp).1
        -- a page that is present needs no table, so the walk has built none
        obtain rfl : m' = m := hstill (by rw [hzero, Nat.zero_min])
        rw [if_pos hpresent]
        exact .refuse h hcounted (Or.inr ⟨hsome, hzero⟩)
      · have hnone : m.entries (pageKey va).path (ptIndex va) = none := by
          rw [← hleaf, entries_eq_none hlast.le hpt]
          exact Bool.eq_false_iff.mpr hpresent
        have hbits := (kernelLeaf_has pa flags).1
        obtain ⟨hedit, hpages⟩ := edit_leaf hover.tree hpt hlast (ptIndex va) (kernelLeaf pa flags) (Or.inl hbits)
        rw [if_pos hbits] at hedit
        rw [if_neg hpresent]
        refine ⟨hover.edit hedit hpages hlast.le hnone fun hless => absurd hlast hless.ne, hcounted', ?_,
          ⟨fun _ => ⟨haccepts, henough.1, hnone, henough.2⟩, fun _ => rfl⟩, fun _ => hedit.entries_self,
          fun hfalse => (by cases hfalse), fun hshort => absurd hshort.2.2 (Nat.not_lt.mpr henough.2)⟩
        intro start i hne
        by_cases hat : start = (pageKey va).path ∧ i = ptIndex va
        · rw [hat.1, hat.2]
        · rw [hedit.entries_of_ne fun hp hi => hat ⟨hp, hi⟩] at hne
          exact (hwithin' start i hne).trans (List.prefix_append _ _)

end Linux95.Memory
