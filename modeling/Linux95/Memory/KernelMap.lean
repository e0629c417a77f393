import Linux95.Base.Runs
import Linux95.Memory.BootstrapWalk
import Linux95.Memory.Isolation
import Linux95.Memory.KernelUnmapping

/-! `map_page`, `unmap_page` and `translate` against a map from addresses to physical addresses. -/

namespace Linux95.Memory
open Base LinkedTables

variable {base m m' : Machine} {path start : List Index} {i j : Index} {p q c w va va' pa flags : Word}

section Pages

def PageKey.page (k : PageKey) : Nat := ((k.pml4.val * 512 + k.pdpt.val) * 512 + k.pd.val) * 512 + k.pt.val

theorem PageKey.page_inj {k k' : PageKey} (h : k.page = k'.page) : k = k' := by
  obtain ⟨a, b, c, d⟩ := k
  obtain ⟨a', b', c', d'⟩ := k'
  unfold PageKey.page at h
  dsimp only at h
  have ha : a = a' := Fin.ext (by omega)
  have hb : b = b' := Fin.ext (by omega)
  have hc : c = c' := Fin.ext (by omega)
  have hd : d = d' := Fin.ext (by omega)
  rw [ha, hb, hc, hd]

def low48 (va : Word) : Nat := va.toNat % 2 ^ 48

theorem page_pageKey (va : Word) : (pageKey va).page = low48 va / pageSize := by
  have h₁ : (pml4Index va).val = va.toNat / 2 ^ 39 % 512 := tableIndex_val 39 va
  have h₂ : (pdptIndex va).val = va.toNat / 2 ^ 30 % 512 := tableIndex_val 30 va
  have h₃ : (pdIndex va).val = va.toNat / 2 ^ 21 % 512 := tableIndex_val 21 va
  have h₄ : (ptIndex va).val = va.toNat / 2 ^ 12 % 512 := tableIndex_val 12 va
  unfold PageKey.page pageKey low48 pageSize
  dsimp only
  rw [h₁, h₂, h₃, h₄]
  omega

theorem pageKey_eq_iff_low48 : pageKey va' = pageKey va ↔ low48 va' / pageSize = low48 va / pageSize := by
  rw [← page_pageKey, ← page_pageKey]
  exact ⟨congrArg PageKey.page, PageKey.page_inj⟩

end Pages

section Translations

def hugeAnswer (e : Entries Index Word) (va : Word) : Option Word :=
  (((e [pml4Index va] (pdptIndex va)).filter fun w => has w pageHuge).map fun w =>
    w &&& oneGiBAddressMask ||| va &&& 0x3FFFFFFF#64).or
  (((e [pml4Index va, pdptIndex va] (pdIndex va)).filter fun w => has w pageHuge).map fun w =>
    w &&& twoMiBAddressMask ||| va &&& 0x1FFFFF#64)

def pageAnswer (entry : Option Word) (va : Word) : Option Word :=
  entry.map fun w => w &&& addressMask ||| va &&& 0xFFF#64

def Plain (m : Machine) : Prop := ∀ i w, m.entries [] i = some w → ∃ c, link w = some c

theorem filter_huge_of_link (h : link w = some c) : (some w).filter (fun w => has w pageHuge) = none := by
  rcases entry_cases w with habsent | ⟨-, -, hnone⟩ | ⟨-, hhuge, -⟩
  · rw [present_of_link h] at habsent
    cases habsent
  · rw [h] at hnone
    cases hnone
  · rw [Option.filter_some, hhuge]
    rfl

theorem table_next_absent (hpath : path.length ≤ 3) (hp : m.table path = some p)
    (h : has (m.memory p i) pagePresent = false) : m.table (path ++ [i]) = none := by
  rw [table_next hpath hp]
  exact pageFormat.link_of_absent h

theorem translate_cases (h : Plain m) (va : Word) :
    m.translate va = ((hugeAnswer m.entries va).or
      (pageAnswer (m.entries (pageKey va).path (ptIndex va)) va)).getD invalidAddress ∧
    m.inHugePage va = (hugeAnswer m.entries va).isSome ∧
    (hugeAnswer m.entries va ≠ none → m.entries (pageKey va).path (ptIndex va) = none) := by
  have hpath : (pageKey va).path = [pml4Index va, pdptIndex va, pdIndex va] := rfl
  have hlength₃ : [pml4Index va, pdptIndex va, pdIndex va].length ≤ 3 := le_rfl
  have hlength₂ : [pml4Index va, pdptIndex va].length ≤ 3 := Nat.le_succ 2
  have hlength₁ : [pml4Index va].length ≤ 3 := Nat.le_add_left 1 2
  have hlength₀ : ([] : List Index).length ≤ 3 := Nat.zero_le 3
  have hbelow₃ : ([pml4Index va, pdptIndex va] ++ [pdIndex va]).length ≤ 3 := hlength₃
  have hbelow₂ : ([pml4Index va] ++ [pdptIndex va]).length ≤ 3 := hlength₂
  have hroot := table_nil m
  unfold Machine.translate Machine.inHugePage hugeAnswer
  rw [hpath]
  rcases entry_cases (m.memory m.rootPhysical (pml4Index va)) with
    habsent | ⟨hpresent, -, hnone⟩ | ⟨hpresent, -, hlink⟩
  · have hpdpt : m.table [pml4Index va] = none := table_next_absent hlength₀ hroot habsent
    have hpd : m.table [pml4Index va, pdptIndex va] = none := table_none_append hbelow₂ hpdpt
    have hpt : m.table [pml4Index va, pdptIndex va, pdIndex va] = none := table_none_append hbelow₃ hpd
    dsimp only
    rw [(walk_absent _ habsent).2, habsent, entries_of_table_none hpdpt, entries_of_table_none hpd,
      entries_of_table_none hpt]
    exact ⟨rfl, rfl, fun hsome => absurd rfl hsome⟩
  · obtain ⟨c, hc⟩ := h _ _ (entries_eq_some hlength₀ hroot hpresent)
    rw [hc] at hnone
    cases hnone
  have hpdpt : m.table [pml4Index va] = some (m.memory m.rootPhysical (pml4Index va) &&& addressMask) :=
    (table_next hlength₀ hroot).trans hlink
  dsimp only
  rw [(walk_link _ hlink).2, hpresent]
  generalize m.memory m.rootPhysical (pml4Index va) &&& addressMask = pdpt at hpdpt ⊢
  rcases entry_cases (m.memory pdpt (pdptIndex va)) with habsent | ⟨hpresent, hhuge, hnone⟩ | ⟨hpresent, hhuge, hlink⟩
  · have hpd : m.table [pml4Index va, pdptIndex va] = none := table_next_absent hlength₁ hpdpt habsent
    have hpt : m.table [pml4Index va, pdptIndex va, pdIndex va] = none := table_none_append hbelow₃ hpd
    rw [(walk_absent _ habsent).2, habsent, (entries_eq_none hlength₁ hpdpt).mpr habsent, entries_of_table_none hpd,
      entries_of_table_none hpt]
    exact ⟨rfl, rfl, fun hsome => absurd rfl hsome⟩
  · have hpd : m.table [pml4Index va, pdptIndex va] = none := (table_next hlength₁ hpdpt).trans hnone
    have hpt : m.table [pml4Index va, pdptIndex va, pdIndex va] = none := table_none_append hbelow₃ hpd
    rw [(walk_huge _ hpresent hhuge).2, hpresent, hhuge, entries_eq_some hlength₁ hpdpt hpresent, Option.filter_some,
      hhuge, entries_of_table_none hpt]
    exact ⟨rfl, rfl, fun _ => rfl⟩
  have hpd : m.table [pml4Index va, pdptIndex va] = some (m.memory pdpt (pdptIndex va) &&& addressMask) :=
    (table_next hlength₁ hpdpt).trans hlink
  rw [(walk_link _ hlink).2, hpresent, hhuge, entries_eq_some hlength₁ hpdpt hpresent, Option.filter_some, hhuge]
  generalize m.memory pdpt (pdptIndex va) &&& addressMask = pd at hpd ⊢
  rcases entry_cases (m.memory pd (pdIndex va)) with habsent | ⟨hpresent, hhuge, hnone⟩ | ⟨hpresent, hhuge, hlink⟩
  · have hpt : m.table [pml4Index va, pdptIndex va, pdIndex va] = none := table_next_absent hlength₂ hpd habsent
    rw [(walk_absent _ habsent).2, habsent, (entries_eq_none hlength₂ hpd).mpr habsent, entries_of_table_none hpt]
    exact ⟨rfl, rfl, fun hsome => absurd rfl hsome⟩
  · have hpt : m.table [pml4Index va, pdptIndex va, pdIndex va] = none := (table_next hlength₂ hpd).trans hnone
    rw [(walk_huge _ hpresent hhuge).2, hpresent, hhuge, entries_eq_some hlength₂ hpd hpresent, Option.filter_some,
      hhuge, entries_of_table_none hpt]
    exact ⟨rfl, rfl, fun _ => rfl⟩
  have hpt : m.table [pml4Index va, pdptIndex va, pdIndex va] = some (m.memory pd (pdIndex va) &&& addressMask) :=
    (table_next hlength₂ hpd).trans hlink
  rw [(walk_link _ hlink).2, hpresent, hhuge, entries_eq_some hlength₂ hpd hpresent, Option.filter_some, hhuge]
  generalize m.memory pd (pdIndex va) &&& addressMask = pt at hpt ⊢
  cases hpresent : has (m.memory pt (ptIndex va)) pagePresent with
  | false =>
    rw [(entries_eq_none hlength₃ hpt).mpr hpresent]
    exact ⟨rfl, rfl, fun hsome => absurd rfl hsome⟩
  | true =>
    rw [entries_eq_some hlength₃ hpt hpresent]
    exact ⟨rfl, rfl, fun hsome => absurd rfl hsome⟩

theorem masked_ne_invalid {a b mask mask' : Word} (h : mask.getLsbD 63 = false) (h' : mask'.getLsbD 63 = false) :
    a &&& mask ||| b &&& mask' ≠ invalidAddress := by
  intro heq
  have hbit := congrArg (fun x : Word => x.getLsbD 63) heq
  rw [BitVec.getLsbD_or, BitVec.getLsbD_and, BitVec.getLsbD_and, h, h', Bool.and_false, Bool.and_false] at hbit
  revert hbit
  decide

theorem hugeAnswer_ne_invalid {e : Entries Index Word} (h : hugeAnswer e va = some w) : w ≠ invalidAddress := by
  unfold hugeAnswer at h
  rcases Option.or_eq_some_iff.mp h with h | ⟨-, h⟩
  · obtain ⟨x, -, rfl⟩ := Option.map_eq_some_iff.mp h
    exact masked_ne_invalid (by decide) (by decide)
  · obtain ⟨x, -, rfl⟩ := Option.map_eq_some_iff.mp h
    exact masked_ne_invalid (by decide) (by decide)

theorem pageAnswer_ne_invalid (w va : Word) : w &&& addressMask ||| va &&& 0xFFF#64 ≠ invalidAddress :=
  masked_ne_invalid (by decide) (by decide)

theorem translate_ne_invalid (h : Plain m) : m.translate va ≠ invalidAddress ↔
    m.inHugePage va = true ∨ m.entries (pageKey va).path (ptIndex va) ≠ none := by
  obtain ⟨htranslate, hhuge, -⟩ := translate_cases h va
  rw [htranslate, hhuge]
  cases hanswer : hugeAnswer m.entries va with
  | some w =>
    have hne := hugeAnswer_ne_invalid hanswer
    simpa using hne
  | none =>
    cases hentry : m.entries (pageKey va).path (ptIndex va) with
    | none => simp [pageAnswer]
    | some w =>
      have hne := pageAnswer_ne_invalid w va
      simpa [pageAnswer] using hne

theorem translate_query (m : Machine) (va : Word) : (queryPage m.memory m.rootPhysical va).1 = true ∧
    (m.translate va = if (queryPage m.memory m.rootPhysical va).2.present
      then (queryPage m.memory m.rootPhysical va).2.physical else invalidAddress) ∧
    ((queryPage m.memory m.rootPhysical va).2.present = true ↔ m.translate va ≠ invalidAddress) := by
  have habsent : false = true ↔ invalidAddress ≠ invalidAddress :=
    ⟨fun hfalse => Bool.noConfusion hfalse, fun hne => absurd rfl hne⟩
  rw [queryPage_aligned (rootPhysical_aligned m)]
  unfold Machine.translate queryPml4 queryPdpt queryPd queryPt
  dsimp only
  split
  · exact ⟨rfl, rfl, habsent⟩
  split
  · exact ⟨rfl, rfl, habsent⟩
  split
  · exact ⟨rfl, rfl, fun _ => masked_ne_invalid (by decide) (by decide), fun _ => rfl⟩
  split
  · exact ⟨rfl, rfl, habsent⟩
  split
  · exact ⟨rfl, rfl, fun _ => masked_ne_invalid (by decide) (by decide), fun _ => rfl⟩
  split
  · exact ⟨rfl, rfl, habsent⟩
  · exact ⟨rfl, rfl, fun _ => masked_ne_invalid (by decide) (by decide), fun _ => rfl⟩

end Translations

namespace Machine

def translation (m : Machine) (va : Word) : Option Nat :=
  if m.translate va = invalidAddress then none else some (m.translate va).toNat

end Machine

/-- What the addresses of 48 bits translate to, and the pages that were mapped and are not unmapped yet. -/
structure AddressMap where
  translate : Nat → Option Nat
  pages : Set Nat

namespace AddressMap

def map (a : AddressMap) (page frame : Nat) : AddressMap :=
  ⟨fun x => if x / pageSize = page then some (frame + x % pageSize) else a.translate x, insert page a.pages⟩

def unmap (a : AddressMap) (page : Nat) : AddressMap :=
  ⟨fun x => if x / pageSize = page then none else a.translate x, a.pages \ {page}⟩

end AddressMap

/-- The tables before the first call: as the bootstrap builds them there are no page tables yet, and every other table
has an entry. -/
structure InitialTables (m : Machine) : Prop where
  tree : KernelTree m
  counted : m.allocator.Counted
  plain : ∀ i, has (m.memory m.rootPhysical i) pagePresent = true → has (m.memory m.rootPhysical i) pageHuge = false
  filled : ∀ path p, path ≠ [] → path.length ≤ 3 → m.table path = some p → ∃ i, has (m.memory p i) pagePresent = true
  huge : ∀ path, path.length = 3 → m.table path = none

structure Refines (base m : Machine) (reference : AddressMap) : Prop where
  isOver : Over base m
  counted : m.allocator.Counted
  tight : Tight pageFormat 3 base.entries m.entries
  translate : ∀ va, m.translation va = reference.translate (low48 va)
  pages : ∀ k : PageKey, m.entries k.path k.pt ≠ none ↔ k.page ∈ reference.pages

namespace InitialTables

theorem plain_entries (h : InitialTables base) : Plain base := by
  intro i w hw
  have hroot : ([] : List Index).length ≤ 3 := Nat.zero_le 3
  obtain ⟨rfl, hpresent⟩ := memory_of_entries hroot (table_nil base) hw
  have hhuge := h.plain i hpresent
  rcases entry_cases (base.memory base.rootPhysical i) with habsent | ⟨-, hhuge', -⟩ | ⟨-, -, hlink⟩
  · rw [hpresent] at habsent
    cases habsent
  · rw [hhuge] at hhuge'
    cases hhuge'
  · exact ⟨_, hlink⟩

theorem no_pages (h : InitialTables base) (hpath : path.length = 3) : base.entries path i = none :=
  entries_of_table_none (h.huge path hpath) i

theorem filled_along (h : InitialTables base) (hpath : path.length ≤ 3) : Filled base path := by
  intro start i c hstart hc
  have hlength := hstart.length_le.trans hpath
  obtain ⟨j, hj⟩ := h.filled _ c (by simp) hlength hc
  exact ⟨j, _, entries_eq_some hlength hc hj⟩

end InitialTables

namespace Over

theorem plain (h : Over base m) (hbase : Plain base) : Plain m := by
  intro i w hw
  cases hold : base.entries [] i with
  | none => exact h.overlay.links [] i w (Nat.zero_lt_succ 2) hold hw
  | some w' =>
    obtain rfl := Option.some.inj ((h.overlay.above [] i w' hold).symm.trans hw)
    exact hbase i w' hold

theorem filter_huge (h : Over base m) (hpath : path.length < 3) (i : Index) :
    (m.entries path i).filter (fun w => has w pageHuge) = (base.entries path i).filter fun w => has w pageHuge := by
  cases hold : base.entries path i with
  | some w => rw [h.overlay.above path i w hold]
  | none =>
    cases hnew : m.entries path i with
    | none => rfl
    | some w =>
      obtain ⟨c, hc⟩ := h.overlay.links path i w hpath hold hnew
      exact filter_huge_of_link hc

theorem hugeAnswer (h : Over base m) (va : Word) : hugeAnswer m.entries va = Memory.hugeAnswer base.entries va := by
  have hpdpt : [pml4Index va].length < 3 := Nat.lt_add_of_pos_left Nat.zero_lt_two
  have hpd : [pml4Index va, pdptIndex va].length < 3 := Nat.lt_succ_self 2
  unfold Memory.hugeAnswer
  rw [h.filter_huge hpdpt, h.filter_huge hpd]

theorem translation (h : Over base m) (hbase : Plain base) (va : Word) : m.translation va =
    ((Memory.hugeAnswer base.entries va).or (pageAnswer (m.entries (pageKey va).path (ptIndex va)) va)).map
      BitVec.toNat := by
  unfold Machine.translation
  rw [(translate_cases (h.plain hbase) va).1, h.hugeAnswer]
  cases hanswer : Memory.hugeAnswer base.entries va with
  | some w => exact if_neg (hugeAnswer_ne_invalid hanswer)
  | none =>
    cases m.entries (pageKey va).path (ptIndex va) with
    | none => rfl
    | some w => exact if_neg (pageAnswer_ne_invalid w va)

theorem hugeAnswer_none (h : Over base m) (hbase : Plain base)
    (hsome : m.entries (pageKey va).path (ptIndex va) ≠ none) : Memory.hugeAnswer base.entries va = none := by
  -- a page that has an entry lies in no huge page
  by_contra hanswer
  rw [← h.hugeAnswer] at hanswer
  exact hsome ((translate_cases (h.plain hbase) va).2.2 hanswer)

end Over

section Steps

theorem PageKey.eq_of_prefix {k k' : PageKey} (h : k'.path ++ [k'.pt] <+: k.path ++ [k.pt]) : k' = k := by
  have heq := h.eq_of_length rfl
  obtain ⟨a, b, c, d⟩ := k
  obtain ⟨a', b', c', d'⟩ := k'
  simp only [PageKey.path, List.cons_append, List.nil_append, List.cons.injEq, and_true] at heq
  obtain ⟨rfl, rfl, rfl, rfl⟩ := heq
  rfl

theorem entries_on_way (h : m.entries path j = some w) (hpath : path.length ≤ 3) (hstart : start ++ [i] <+: path ++ [j]) :
    ∃ w', m.entries start i = some w' := by
  rcases List.prefix_concat_iff.mp hstart with heq | hshorter
  · obtain ⟨rfl, hij⟩ := List.append_inj' heq rfl
    obtain rfl : i = j := by simpa using hij
    exact ⟨w, h⟩
  · obtain ⟨p, hp, -⟩ := table_of_entries h
    exact entries_to_table hpath hp hshorter

theorem Mapping.tight {result : Bool × Machine} (hmapping : Mapping m va pa flags result) (hresult : result.1 = true)
    (h : Tight pageFormat 3 base.entries m.entries) : Tight pageFormat 3 base.entries result.2.entries := by
  intro start i w c hstart hnone hw hc
  by_cases hold : result.2.entries start i = m.entries start i
  · rw [hold] at hw
    obtain ⟨j, w', hw'⟩ := h start i w c hstart hnone hw hc
    exact ⟨j, w', hmapping.isOver.overlay.above _ j w' hw'⟩
  · have hprefix := hmapping.within start i hold
    have hshorter : start ++ [i] <+: (pageKey va).path := by
      rcases List.prefix_concat_iff.mp hprefix with heq | hshorter
      · have hlength := congrArg List.length heq
        rw [List.length_append, List.length_append, List.length_singleton, List.length_singleton] at hlength
        have hlast : (pageKey va).path.length = 3 := rfl
        omega
      · exact hshorter
    obtain ⟨x, hx⟩ := next_on_path (i := ptIndex va) hshorter
    exact ⟨x, entries_on_way (hmapping.mapped hresult) le_rfl hx⟩

theorem Unmapping.tight {result : Bool × Machine} (hunmapping : Unmapping m va result) (hresult : result.1 = true)
    (h : Tight pageFormat 3 base.entries m.entries) : Tight pageFormat 3 base.entries result.2.entries := by
  intro start i w c hstart hnone hw hc
  obtain ⟨j, w', hw'⟩ := h start i w c hstart hnone (hunmapping.fewer start i w hw) hc
  by_cases hold : result.2.entries (start ++ [i]) j = m.entries (start ++ [i]) j
  · exact ⟨j, w', hold.trans hw'⟩
  · -- The table is on the path of the page, where the way up left no empty table.
    have hprefix := hunmapping.within (start ++ [i]) j hold
    have hshorter : start ++ [i] <+: (pageKey va).path := by
      rcases List.prefix_concat_iff.mp hprefix with heq | hshorter
      · rw [(List.append_inj' heq rfl).1]
      · exact (List.prefix_append _ _).trans hshorter
    have htable : result.2.table (start ++ [i]) = some c := by
      rw [table_concat hstart.le, hw]
      exact hc
    exact hunmapping.filled hresult start i c hshorter htable

theorem kernelLeaf_answer (haligned : isPageAligned pa = true) (hsmall : pa.toNat < 2 ^ 52) (va : Word) :
    (kernelLeaf pa flags &&& addressMask ||| va &&& 0xFFF#64).toNat = pa.toNat + low48 va % pageSize := by
  rw [(kernelLeaf_has pa flags).2, frame_offset haligned, Nat.mod_eq_of_lt hsmall]
  unfold low48 pageSize
  omega

end Steps

inductive PageCall
  | map (va pa flags : Word)
  | unmap (va : Word)

namespace PageCall

def exec (call : PageCall) (m : Machine) : Bool × Machine :=
  match call with
  | map va pa flags => m.mapPage va pa flags
  | unmap va => m.unmapPage va

def note (call : PageCall) (reference : AddressMap) : AddressMap :=
  match call with
  | map va pa _ => reference.map (low48 va / pageSize) pa.toNat
  | unmap va => reference.unmap (low48 va / pageSize)

def step (call : PageCall) (s : Machine × AddressMap) : Machine × AddressMap :=
  ((call.exec s.1).2, if (call.exec s.1).1 then call.note s.2 else s.2)

/-- The allocator does not run out during the call, and a physical address has at most 52 bits. -/
def Supplied (s : Machine × AddressMap) : PageCall → Prop
  | map va pa flags =>
    pa.toNat < 2 ^ 52 ∧ (s.1.acceptsPage va pa flags = true → s.1.missingTables va ≤ s.1.allocator.freeCount)
  | unmap _ => True

end PageCall

def AddressMap.initial (m : Machine) : AddressMap := ⟨fun x => m.translation (BitVec.ofNat 64 x), ∅⟩

section Runs
variable {reference : AddressMap}

theorem acceptsPage_iff : m.acceptsPage va pa flags = true ↔
    isPageAligned va = true ∧ isPageAligned pa = true ∧ (has flags pageNoExecute = true → m.nxeEnabled = true) := by
  unfold Machine.acceptsPage
  cases isPageAligned va <;> cases isPageAligned pa <;> cases has flags pageNoExecute <;> cases m.nxeEnabled <;> simp

theorem mask_of_low48 (h : low48 va' = low48 va) {n : Nat} (hn : n ≤ 48) {mask : Word} (hmask : mask.toNat = 2 ^ n - 1) :
    va' &&& mask = va &&& mask := by
  apply BitVec.eq_of_toNat_eq
  rw [BitVec.toNat_and, BitVec.toNat_and, hmask, Nat.and_two_pow_sub_one_eq_mod, Nat.and_two_pow_sub_one_eq_mod,
    ← Nat.mod_mod_of_dvd va'.toNat (Nat.pow_dvd_pow 2 hn), ← Nat.mod_mod_of_dvd va.toNat (Nat.pow_dvd_pow 2 hn)]
  exact congrArg (· % 2 ^ n) h

theorem translate_low48 (m : Machine) (h : low48 va' = low48 va) : m.translate va' = m.translate va := by
  have hkey : pageKey va' = pageKey va := pageKey_eq_iff_low48.mpr (by rw [h])
  have hpml4 : pml4Index va' = pml4Index va := congrArg PageKey.pml4 hkey
  have hpdpt : pdptIndex va' = pdptIndex va := congrArg PageKey.pdpt hkey
  have hpd : pdIndex va' = pdIndex va := congrArg PageKey.pd hkey
  have hpt : ptIndex va' = ptIndex va := congrArg PageKey.pt hkey
  have hgiga : va' &&& 0x3FFFFFFF#64 = va &&& 0x3FFFFFFF#64 := mask_of_low48 (n := 30) h (by decide) rfl
  have hmega : va' &&& 0x1FFFFF#64 = va &&& 0x1FFFFF#64 := mask_of_low48 (n := 21) h (by decide) rfl
  have hoffset : va' &&& 0xFFF#64 = va &&& 0xFFF#64 := mask_of_low48 (n := 12) h (by decide) rfl
  unfold Machine.translate
  rw [hpml4, hpdpt, hpd, hpt, hgiga, hmega, hoffset]

theorem refines_initial (h : InitialTables base) : Refines base base (.initial base) := by
  refine ⟨.refl h.tree, h.counted, ?_, ?_, ?_⟩
  · intro path i w c _ hnone hw
    rw [hnone] at hw
    cases hw
  · intro va
    have hlow : low48 (BitVec.ofNat 64 (low48 va)) = low48 va := by
      unfold low48
      rw [BitVec.toNat_ofNat]
      omega
    show base.translation va = base.translation (BitVec.ofNat 64 (low48 va))
    unfold Machine.translation
    rw [translate_low48 base hlow]
  · intro k
    rw [h.no_pages rfl]
    exact ⟨fun hne => absurd rfl hne, fun hmem => absurd hmem (Set.notMem_empty _)⟩

theorem refines_map (hbase : InitialTables base) (h : Refines base m reference)
    (hsucceeds : (m.mapPage va pa flags).1 = true) (hsmall : pa.toNat < 2 ^ 52) :
    Refines base (m.mapPage va pa flags).2 (reference.map (low48 va / pageSize) pa.toNat) := by
  have hmapping := mapPage_spec h.isOver.tree h.counted va pa flags
  generalize m.mapPage va pa flags = result at hsucceeds hmapping
  have hover := h.isOver.trans hmapping.isOver
  have haligned := (acceptsPage_iff.mp (hmapping.succeeds.mp hsucceeds).1).2.1
  have hmapped : ∀ {k : PageKey}, k = pageKey va → result.2.entries k.path k.pt = some (kernelLeaf pa flags) := by
    rintro k rfl
    exact hmapping.mapped hsucceeds
  have hkept : ∀ {k : PageKey}, k ≠ pageKey va → result.2.entries k.path k.pt = m.entries k.path k.pt := by
    intro k hne
    by_contra hchanged
    exact hne (PageKey.eq_of_prefix (hmapping.within k.path k.pt hchanged))
  refine ⟨hover, hmapping.counted, hmapping.tight hsucceeds h.tight, ?_, ?_⟩
  · intro va'
    rw [hover.translation hbase.plain_entries]
    show _ = if _ then _ else _
    by_cases hpage : low48 va' / pageSize = low48 va / pageSize
    · have hentry : result.2.entries (pageKey va').path (ptIndex va') = some (kernelLeaf pa flags) :=
        hmapped (pageKey_eq_iff_low48.mpr hpage)
      have hhuge := hover.hugeAnswer_none hbase.plain_entries (hentry ▸ Option.some_ne_none _)
      rw [if_pos hpage, hhuge, hentry]
      exact congrArg some (kernelLeaf_answer haligned hsmall va')
    · have hentry : result.2.entries (pageKey va').path (ptIndex va') = m.entries (pageKey va').path (ptIndex va') :=
        hkept fun heq => hpage (pageKey_eq_iff_low48.mp heq)
      rw [if_neg hpage, hentry, ← h.translate, h.isOver.translation hbase.plain_entries]
  · intro k
    show _ ↔ k.page ∈ insert _ reference.pages
    rw [Set.mem_insert_iff, ← page_pageKey, ← h.pages]
    by_cases hk : k = pageKey va
    · rw [hmapped hk, hk]
      exact ⟨fun _ => Or.inl rfl, fun _ => Option.some_ne_none _⟩
    · rw [hkept hk]
      exact ⟨Or.inr, fun hmem => hmem.resolve_left fun heq => hk (PageKey.page_inj heq)⟩

theorem refines_unmap (hbase : InitialTables base) (h : Refines base m reference)
    (hsucceeds : (m.unmapPage va).1 = true) :
    Refines base (m.unmapPage va).2 (reference.unmap (low48 va / pageSize)) := by
  have hunmapping := unmapPage_spec h.isOver.tree va
  generalize m.unmapPage va = result at hsucceeds hunmapping
  have hcause : isPageAligned va = true ∧ m.entries (pageKey va).path (ptIndex va) ≠ none := by
    by_contra hrefused
    have hrefused : isPageAligned va = false ∨ m.entries (pageKey va).path (ptIndex va) = none := by
      by_cases haligned : isPageAligned va = true
      · exact Or.inr (not_not.mp fun hne => hrefused ⟨haligned, hne⟩)
      · exact Or.inl (Bool.eq_false_iff.mpr haligned)
    rw [hunmapping.refused hrefused] at hsucceeds
    cases hsucceeds
  obtain ⟨haligned, hpresent⟩ := hcause
  have hover := (hunmapping.isOver haligned hpresent base h.isOver (hbase.no_pages rfl) (Or.inr (hbase.filled_along le_rfl))).2
  have hgone : ∀ {k : PageKey}, k = pageKey va → result.2.entries k.path k.pt = none := by
    rintro k rfl
    exact hunmapping.gone haligned
  have hkept : ∀ {k : PageKey}, k ≠ pageKey va → result.2.entries k.path k.pt = m.entries k.path k.pt := by
    intro k hne
    by_contra hchanged
    exact hne (PageKey.eq_of_prefix (hunmapping.within k.path k.pt hchanged))
  refine ⟨hover, hunmapping.counted h.counted, hunmapping.tight hsucceeds h.tight, ?_, ?_⟩
  · intro va'
    rw [hover.translation hbase.plain_entries]
    show _ = if _ then _ else _
    by_cases hpage : low48 va' / pageSize = low48 va / pageSize
    · have hkey := pageKey_eq_iff_low48.mpr hpage
      have hentry : result.2.entries (pageKey va').path (ptIndex va') = none := hgone hkey
      have hbefore : m.entries (pageKey va').path (ptIndex va') ≠ none := by
        show m.entries (pageKey va').path (pageKey va').pt ≠ none
        rw [hkey]
        exact hpresent
      rw [if_pos hpage, h.isOver.hugeAnswer_none hbase.plain_entries hbefore, hentry]
      rfl
    · have hentry : result.2.entries (pageKey va').path (ptIndex va') = m.entries (pageKey va').path (ptIndex va') :=
        hkept fun heq => hpage (pageKey_eq_iff_low48.mp heq)
      rw [if_neg hpage, hentry, ← h.translate, h.isOver.translation hbase.plain_entries]
  · intro k
    show _ ↔ k.page ∈ reference.pages \ {_}
    rw [Set.mem_sdiff, Set.mem_singleton_iff, ← page_pageKey, ← h.pages]
    by_cases hk : k = pageKey va
    · rw [hgone hk, hk]
      exact ⟨fun hne => absurd rfl hne, fun hmem => absurd rfl hmem.2⟩
    · rw [hkept hk]
      exact ⟨fun hne => ⟨hne, fun heq => hk (PageKey.page_inj heq)⟩, And.left⟩

theorem Over.restored_of_no_pages (h : Over base m) (hbase : KernelTree base)
    (htight : Tight pageFormat 3 base.entries m.entries)
    (hlast : ∀ path i, path.length = 3 → base.entries path i = none → m.entries path i = none) : Restored base m := by
  refine h.restored (h.overlay.eq_base htight ?_ ?_) hbase
  · intro path i hnone j
    by_cases hpath : path.length ≤ 3
    · exact entries_of_table_none (by rw [table_concat hpath, hnone]; rfl) j
    · refine entries_deep (F := pageFormat) ?_
      rw [List.length_append]
      omega
  · intro path i hpath hnone
    by_cases hlength : path.length = 3
    · exact hlast path i hlength hnone
    · exact entries_deep (F := pageFormat) (lt_of_le_of_ne hpath (Ne.symm hlength))

/-- When the last page is unmapped, the tables and the free pages are the initial ones. -/
theorem Refines.restored (hbase : InitialTables base) (h : Refines base m reference) (hempty : reference.pages = ∅) :
    Restored base m := by
  refine h.isOver.restored_of_no_pages hbase.tree h.tight fun path i hlast _ => ?_
  obtain ⟨a, b, c, rfl⟩ := List.length_eq_three.mp hlast
  have hpage := h.pages ⟨a, b, c, i⟩
  rw [hempty] at hpage
  exact not_not.mp fun hne => Set.notMem_empty _ (hpage.mp hne)

theorem map_failed (h : Refines base m reference) (hfails : (m.mapPage va pa flags).1 = false)
    (hsupplied : (PageCall.map va pa flags).Supplied (m, reference)) : (m.mapPage va pa flags).2 = m := by
  -- a call that fails changes nothing while the allocator has pages
  refine (mapPage_spec h.isOver.tree h.counted va pa flags).failed hfails ?_
  rintro ⟨haccepts, -, hshort⟩
  exact absurd (hsupplied.2 haccepts) (Nat.not_le.mpr hshort)

theorem map_fails_iff (hbase : InitialTables base) (h : Refines base m reference)
    (hsupplied : (PageCall.map va pa flags).Supplied (m, reference)) : (m.mapPage va pa flags).1 = false ↔
      isPageAligned va = false ∨ isPageAligned pa = false ∨
      has flags pageNoExecute = true ∧ m.nxeEnabled = false ∨ m.translate va ≠ invalidAddress := by
  have hsucceeds := (mapPage_spec h.isOver.tree h.counted va pa flags).succeeds
  rw [translate_ne_invalid (h.isOver.plain hbase.plain_entries)]
  constructor
  · intro hfails
    by_contra hno
    simp only [not_or, not_and, Bool.not_eq_false, Bool.not_eq_true, not_not] at hno
    obtain ⟨hva, hpa, hnx, hhuge, hnone⟩ := hno
    have haccepts := acceptsPage_iff.mpr ⟨hva, hpa, hnx⟩
    rw [hsucceeds.mpr ⟨haccepts, hhuge, hnone, hsupplied.2 haccepts⟩] at hfails
    cases hfails
  · intro hcause
    by_contra hsuccess
    obtain ⟨haccepts, hhuge, hnone, -⟩ := hsucceeds.mp (Bool.not_eq_false _ ▸ hsuccess)
    obtain ⟨hva, hpa, hnx⟩ := acceptsPage_iff.mp haccepts
    rcases hcause with hcause | hcause | ⟨hflag, hcause⟩ | hcause | hcause
    · rw [hva] at hcause
      cases hcause
    · rw [hpa] at hcause
      cases hcause
    · rw [hnx hflag] at hcause
      cases hcause
    · rw [hhuge] at hcause
      cases hcause
    · exact hcause hnone

theorem Refines.isMapped (h : Refines base m reference) (va : Word) :
    m.isMapped va = (reference.translate (low48 va)).isSome := by
  rw [← h.translate va]
  unfold Machine.isMapped Machine.translation
  by_cases hinvalid : m.translate va = invalidAddress
  · rw [if_pos hinvalid, hinvalid]
    decide
  · rw [if_neg hinvalid]
    exact bne_iff_ne.mpr hinvalid

theorem unmap_cases (hbase : InitialTables base) (h : Refines base m reference) (va : Word) :
    (m.unmapPage va).1 = true ∧ isPageAligned va = true ∧ low48 va / pageSize ∈ reference.pages ∨
      m.unmapPage va = (false, m) ∧ ¬(isPageAligned va = true ∧ low48 va / pageSize ∈ reference.pages) := by
  have hunmapping := unmapPage_spec h.isOver.tree va
  have hpage : m.entries (pageKey va).path (ptIndex va) ≠ none ↔ low48 va / pageSize ∈ reference.pages := by
    rw [← page_pageKey]
    exact h.pages (pageKey va)
  rw [← hpage]
  by_cases hcause : isPageAligned va = true ∧ m.entries (pageKey va).path (ptIndex va) ≠ none
  · have hfilled := @InitialTables.filled_along base (pageKey va).path hbase le_rfl
    exact Or.inl ⟨(hunmapping.isOver hcause.1 hcause.2 base h.isOver (hbase.no_pages rfl) (Or.inr hfilled)).1, hcause⟩
  · refine Or.inr ⟨hunmapping.refused ?_, hcause⟩
    by_cases haligned : isPageAligned va = true
    · exact Or.inr (not_not.mp fun hne => hcause ⟨haligned, hne⟩)
    · exact Or.inl (Bool.eq_false_iff.mpr haligned)

theorem refines_step (hbase : InitialTables base) {s : Machine × AddressMap} (call : PageCall)
    (h : Refines base s.1 s.2) (hcall : call.Supplied s) : Refines base (call.step s).1 (call.step s).2 := by
  cases call with
  | map va pa flags =>
    show Refines base (s.1.mapPage va pa flags).2
      (if (s.1.mapPage va pa flags).1 then s.2.map (low48 va / pageSize) pa.toNat else s.2)
    cases hresult : (s.1.mapPage va pa flags).1 with
    | true => exact refines_map hbase h hresult hcall.1
    | false =>
      rw [map_failed h hresult hcall]
      exact h
  | unmap va =>
    show Refines base (s.1.unmapPage va).2 (if (s.1.unmapPage va).1 then s.2.unmap (low48 va / pageSize) else s.2)
    rcases unmap_cases hbase h va with ⟨hsucceeds, -⟩ | ⟨hfails, -⟩
    · rw [if_pos hsucceeds]
      exact refines_unmap hbase h hsucceeds
    · rw [hfails]
      exact h

/-- Kernel paging refines a map from addresses to physical addresses. -/
theorem kernel_paging_refines_map (base : Machine) (hbase : InitialTables base) (calls : List PageCall)
    (hcalls : Throughout PageCall.step PageCall.Supplied (base, .initial base) calls) :
    let s := run PageCall.step (base, .initial base) calls
    (∀ va, s.1.translation va = s.2.translate (low48 va) ∧ s.1.isMapped va = (s.2.translate (low48 va)).isSome) ∧
    (∀ va, (s.1.unmapPage va).1 = true ↔ isPageAligned va = true ∧ low48 va / pageSize ∈ s.2.pages) ∧
    (∀ va pa flags, (PageCall.map va pa flags).Supplied s → ((s.1.mapPage va pa flags).1 = false ↔
      isPageAligned va = false ∨ isPageAligned pa = false ∨
      has flags pageNoExecute = true ∧ s.1.nxeEnabled = false ∨ s.1.translate va ≠ invalidAddress)) ∧
    (∀ va, (queryPage s.1.memory s.1.rootPhysical va).1 = true ∧
      ((queryPage s.1.memory s.1.rootPhysical va).2.present = true ↔ s.1.translate va ≠ invalidAddress) ∧
      ((queryPage s.1.memory s.1.rootPhysical va).2.present = true →
        (queryPage s.1.memory s.1.rootPhysical va).2.physical = s.1.translate va)) ∧
    (s.2.pages = ∅ → Restored base s.1 ∧
      ((∀ p ∈ base.tables, ∀ j, has (base.memory p j) pagePresent = false → base.memory p j = 0#64) →
        ∀ p, p ∉ base.allocator.free → s.1.memory p = base.memory p)) := by
  intro s
  have h : Refines base s.1 s.2 := by
    let inv := fun s : Machine × AddressMap => Refines base s.1 s.2
    have hstep : ∀ s call, inv s → PageCall.Supplied s call → inv (PageCall.step call s) :=
      fun s call hs hcall => refines_step hbase call hs hcall
    exact run_invariant hstep (refines_initial hbase) hcalls
  refine ⟨fun va => ⟨h.translate va, h.isMapped va⟩, ?_, ?_, ?_, ?_⟩
  · intro va
    rcases unmap_cases hbase h va with ⟨hsucceeds, hpage⟩ | ⟨hfails, hpage⟩
    · exact ⟨fun _ => hpage, fun _ => hsucceeds⟩
    · rw [hfails]
      exact ⟨fun hfalse => Bool.noConfusion hfalse, fun hpage' => absurd hpage' hpage⟩
  · intro va pa flags hsupplied
    exact map_fails_iff hbase h hsupplied
  · intro va
    obtain ⟨haligned, htranslate, hpresent⟩ := translate_query s.1 va
    refine ⟨haligned, hpresent, fun hquery => ?_⟩
    rw [htranslate, if_pos hquery]
  · intro hempty
    have hrestored := h.restored hbase hempty
    exact ⟨hrestored, fun hzero p hp => hrestored.memory_eq hzero hp⟩

end Runs

namespace FirstGigabyte

theorem first_page_used (i : Nat) (hi : decide (i = 0) = true) : decide (i < 3) = true := by
  rw [of_decide_eq_true hi]
  rfl

def allocator : Allocator where
  pageCount := 16
  used i := decide (i < 3)
  reserved i := decide (i = 0)
  freeCount := 13
  nextHint := 0
  releases := []
  pageCount_le := by decide
  reserved_used := first_page_used
  zero_reserved := rfl

def memory : PhysicalMemory := fun p i =>
  if i.val = 0 then if p = 0x1000#64 then 0x2003#64 else if p = 0x2000#64 then 0x83#64 else 0#64 else 0#64

def machine : Machine := ⟨allocator, memory, 0x1000#64, true⟩

theorem link_root (i : Index) : link (memory 0x1000#64 i) = if i.val = 0 then some 0x2000#64 else none := by
  unfold memory
  split
  · decide
  · rfl

theorem link_below (i : Index) : link (memory 0x2000#64 i) = none := by
  unfold memory
  split
  · decide
  · rfl

theorem table_cases (h : machine.table path = some p) :
    path = [] ∧ p = 0x1000#64 ∨ (∃ i : Index, i.val = 0 ∧ path = [i]) ∧ p = 0x2000#64 := by
  have hroot : machine.rootPhysical = 0x1000#64 := by decide
  unfold Machine.table node at h
  rw [hroot] at h
  cases path with
  | nil => exact Or.inl ⟨rfl, (Option.some.inj h).symm⟩
  | cons i path =>
    obtain ⟨c, hc, h⟩ := Option.bind_eq_some_iff.mp h
    have hc : link (memory 0x1000#64 i) = some c := hc
    rw [link_root] at hc
    split at hc
    · rename_i hi
      obtain rfl := Option.some.inj hc
      cases path with
      | nil => exact Or.inr ⟨⟨i, hi, rfl⟩, (Option.some.inj h).symm⟩
      | cons j path =>
        obtain ⟨d, hd, -⟩ := Option.bind_eq_some_iff.mp h
        have hd : link (memory 0x2000#64 j) = some d := hd
        rw [link_below] at hd
        cases hd
    · cases hc

theorem initialTables : InitialTables machine := by
  refine ⟨⟨?_, ?_⟩, by decide, ?_, ?_, ?_⟩
  · rintro r path r' path' b ⟨rfl, -⟩ ⟨rfl, -⟩ hb hb'
    refine ⟨rfl, ?_⟩
    rcases table_cases hb with ⟨rfl, rfl⟩ | ⟨⟨i, hi, rfl⟩, rfl⟩ <;>
      rcases table_cases hb' with ⟨rfl, hb⟩ | ⟨⟨j, hj, rfl⟩, hb⟩
    · rfl
    · exact absurd hb (by decide)
    · exact absurd hb (by decide)
    · rw [Fin.ext (hi.trans hj.symm)]
  · rintro p ⟨path, -, hp⟩ hfree
    rcases table_cases hp with ⟨-, rfl⟩ | ⟨-, rfl⟩
    · have hused := (Allocator.mem_free_pageAddress (a := allocator) (i := 1) (by decide)).mp hfree
      cases hused
    · have hused := (Allocator.mem_free_pageAddress (a := allocator) (i := 2) (by decide)).mp hfree
      cases hused
  · intro i hpresent
    have hroot : machine.rootPhysical = 0x1000#64 := by decide
    rw [hroot] at hpresent ⊢
    show has (memory 0x1000#64 i) pageHuge = false
    unfold memory
    split
    · decide
    · rfl
  · intro path p hne _ hp
    rcases table_cases hp with ⟨rfl, -⟩ | ⟨-, rfl⟩
    · exact absurd rfl hne
    · refine ⟨pml4Index 0#64, ?_⟩
      decide
  · intro path hlength
    cases hp : machine.table path with
    | none => rfl
    | some p =>
      rcases table_cases hp with ⟨rfl, -⟩ | ⟨⟨i, -, rfl⟩, -⟩
      · cases hlength
      · cases hlength

def calls : List PageCall := [.map 0x40000000#64 0x5000#64 pageWritable, .unmap 0x40000000#64]

theorem calls_supplied : Throughout PageCall.step PageCall.Supplied (machine, .initial machine) calls :=
  ⟨⟨by decide, fun _ => by decide⟩, trivial, trivial⟩

end FirstGigabyte

/-- A page mapped and unmapped beside the huge page. -/
theorem kernel_paging_refines_map_first_gigabyte :
    let s := run PageCall.step (FirstGigabyte.machine, .initial FirstGigabyte.machine) FirstGigabyte.calls
    (∀ va, s.1.translation va = s.2.translate (low48 va) ∧ s.1.isMapped va = (s.2.translate (low48 va)).isSome) ∧
      ∀ va, (s.1.unmapPage va).1 = true ↔ isPageAligned va = true ∧ low48 va / pageSize ∈ s.2.pages := by
  have h := kernel_paging_refines_map FirstGigabyte.machine FirstGigabyte.initialTables FirstGigabyte.calls
    FirstGigabyte.calls_supplied
  exact ⟨h.1, h.2.1⟩

end Linux95.Memory
