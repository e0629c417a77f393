import Linux95.Fat32.Listings
import Linux95.Fat32.SameObjects
import Linux95.Fat32.Slices

/-! The slots of a directory as one list: what is listed and what is found depends on the slots in
front of the end marker only, and `find_in_directory` remembers the first one that is free. -/

namespace Linux95.Fat32
open Base Storage Write

def dirSlots (g : BpbGeometry) (chain : List Nat) : List DirectorySlot := chain.flatMap (clusterSlots g)

def shownEntry (e : Entry) : List FileEntry :=
  match decodeDirectoryEntry e with
  | .normal entry => [entry.toFileEntry]
  | _ => []

def inUse (d : Disk) (slots : List DirectorySlot) : List DirectorySlot := slots.takeWhile (slotUsed d)

def isHit (d : Disk) (name : ShortName) (slot : DirectorySlot) : Bool :=
  liveShortEntry (entryAt d slot) && nameMatches (entryAt d slot) name

section Slots
variable {g : BpbGeometry} {c : Nat}

theorem length_slotsFrom (lba m n : Nat) : (slotsFrom lba m n).length = n := by
  unfold slotsFrom
  rw [List.length_map, List.length_range']

theorem clusterSlots_getElem? (m : Nat) (hm : m < g.sectorsPerCluster * 16) :
    (clusterSlots g c)[m]? = some ⟨g.dataLba c (m / 16), m % 16 * 32⟩ := by
  unfold clusterSlots sectorSlots
  rw [getElem?_flatMap_uniform (by decide) fun j => length_slotsFrom _ _ _,
    List.getElem?_range' (by omega)]
  unfold slotsFrom
  rw [Option.bind_some, List.getElem?_map, List.getElem?_range' (by omega), Option.map_some,
    Nat.zero_add, Nat.zero_add, Nat.one_mul, Nat.one_mul]

theorem mem_clusterSlots {slot : DirectorySlot} : slot ∈ clusterSlots g c ↔
    ∃ i j, i < g.sectorsPerCluster ∧ j < 16 ∧ slot = ⟨g.dataLba c i, j * 32⟩ := by
  constructor
  · intro h
    obtain ⟨m, hm⟩ := List.mem_iff_getElem?.mp h
    have hlt : m < g.sectorsPerCluster * 16 := by
      rw [← length_clusterSlots (g := g) c]
      exact (List.getElem?_eq_some_iff.mp hm).1
    rw [clusterSlots_getElem? m hlt] at hm
    exact ⟨m / 16, m % 16, by omega, by omega, (Option.some.inj hm).symm⟩
  · rintro ⟨i, j, hi, hj, rfl⟩
    have hget := clusterSlots_getElem? (g := g) (c := c) (i * 16 + j) (by omega)
    rw [show (i * 16 + j) / 16 = i by omega, show (i * 16 + j) % 16 = j by omega] at hget
    exact List.mem_of_getElem? hget

theorem mem_dirSlots {chain : List Nat} {slot : DirectorySlot} : slot ∈ dirSlots g chain ↔
    ∃ x ∈ chain, ∃ i j, i < g.sectorsPerCluster ∧ j < 16 ∧ slot = ⟨g.dataLba x i, j * 32⟩ := by
  unfold dirSlots
  rw [List.mem_flatMap]
  constructor
  · rintro ⟨x, hx, hslot⟩
    exact ⟨x, hx, mem_clusterSlots.mp hslot⟩
  · rintro ⟨x, hx, hslot⟩
    exact ⟨x, hx, mem_clusterSlots.mpr hslot⟩

theorem clusterSlots_nodup (g : BpbGeometry) (c : Nat) : (clusterSlots g c).Nodup := by
  rw [List.nodup_iff_getElem?_ne_getElem?]
  intro i j hij hj heq
  rw [length_clusterSlots] at hj
  rw [clusterSlots_getElem? i (by omega), clusterSlots_getElem? j hj, Option.some.injEq,
    DirectorySlot.mk.injEq] at heq
  unfold BpbGeometry.dataLba at heq
  omega

theorem clusterSlots_disjoint {c' : Nat} (hc : validCluster g c = true) (hc' : validCluster g c' = true)
    (hne : c ≠ c') : List.Disjoint (clusterSlots g c) (clusterSlots g c') := by
  intro slot hslot hslot'
  obtain ⟨i, j, hi, -, rfl⟩ := mem_clusterSlots.mp hslot
  obtain ⟨i', j', hi', -, heq⟩ := mem_clusterSlots.mp hslot'
  exact hne (dataLba_inj hc hc' hi hi' (congrArg DirectorySlot.lba heq)).1

theorem dirSlots_nodup {chain : List Nat} (hvalid : ∀ x ∈ chain, validCluster g x = true)
    (hnodup : chain.Nodup) : (dirSlots g chain).Nodup := by
  unfold dirSlots
  rw [List.nodup_flatMap]
  refine ⟨fun x _ => clusterSlots_nodup g x, ?_⟩
  refine hnodup.imp_of_mem fun hx hy hne => ?_
  exact clusterSlots_disjoint (hvalid _ hx) (hvalid _ hy) hne

theorem dirSlots_append (g : BpbGeometry) (chain chain' : List Nat) :
    dirSlots g (chain ++ chain') = dirSlots g chain ++ dirSlots g chain' := List.flatMap_append

theorem dirSlots_cons (g : BpbGeometry) (chain : List Nat) :
    dirSlots g (c :: chain) = clusterSlots g c ++ dirSlots g chain := List.flatMap_cons

theorem dirSlots_singleton (g : BpbGeometry) (c : Nat) : dirSlots g [c] = clusterSlots g c := by
  rw [dirSlots_cons]
  exact List.append_nil _

theorem dirSlots_split {tail : Nat} {pre post : List DirectorySlot} {slot : DirectorySlot}
    (split : clusterSlots g tail = pre ++ slot :: post) (before after : List Nat) :
    dirSlots g (before ++ tail :: after) = dirSlots g before ++ pre ++ slot :: (post ++ dirSlots g after) := by
  rw [dirSlots_append, dirSlots_cons, split]
  simp only [List.append_assoc, List.cons_append]

theorem directorySlots_chain {d : Disk} {chain : List Nat} (h : Chain g d c chain) :
    ∀ n, chain.length ≤ n → directorySlots g d n c = dirSlots g chain := by
  induction h with
  | last h =>
    intro n hn
    obtain ⟨n, rfl⟩ : ∃ k, n = k + 1 := ⟨n - 1, by rw [List.length_singleton] at hn; omega⟩
    rw [directorySlots, h, dirSlots_cons]
    rfl
  | next h _ ih =>
    intro n hn
    rw [List.length_cons] at hn
    obtain ⟨n, rfl⟩ : ∃ k, n = k + 1 := ⟨n - 1, by omega⟩
    rw [directorySlots, h, dirSlots_cons, ← ih n (by omega)]
    rfl

theorem usedSlots_chain {d : Disk} {chain : List Nat} (h : Chain g d c chain) :
    usedSlots g d c = inUse d (dirSlots g chain) := by
  unfold usedSlots inUse
  rw [directorySlots_chain h _ h.length_le]

end Slots

section InUse
variable {d d' : Disk} {pre post l l' : List DirectorySlot} {slot : DirectorySlot}

theorem inUse_all (h : ∀ x ∈ l, slotUsed d x = true) : inUse d l = l := List.takeWhile_eq_self_iff.mpr h

theorem inUse_append (h : ∀ x ∈ pre, slotUsed d x = true) : inUse d (pre ++ post) = pre ++ inUse d post := by
  unfold inUse
  rw [List.takeWhile_append_of_pos h]

theorem inUse_end (h : ∀ x ∈ pre, slotUsed d x = true) (hend : slotUsed d slot = false) :
    inUse d (pre ++ slot :: post) = pre := by
  rw [inUse_append h]
  unfold inUse
  rw [List.takeWhile_cons_of_neg (by rw [hend]; decide), List.append_nil]

theorem inUse_used (h : ∀ x ∈ pre, slotUsed d x = true) (hused : slotUsed d slot = true) :
    inUse d (pre ++ slot :: post) = pre ++ slot :: inUse d post := by
  rw [inUse_append h]
  unfold inUse
  rw [List.takeWhile_cons_of_pos hused]

theorem mem_inUse (h : slot ∈ inUse d l) : slot ∈ l ∧ slotUsed d slot = true :=
  ⟨List.takeWhile_subset _ h, List.mem_takeWhile_imp h⟩

theorem slotUsed_congr (h : entryAt d' slot = entryAt d slot) : slotUsed d' slot = slotUsed d slot := by
  unfold slotUsed
  rw [h]

theorem inUse_congr (h : ∀ x ∈ l, entryAt d' x = entryAt d x) : inUse d' l = inUse d l := by
  induction l with
  | nil => rfl
  | cons x l ih =>
    have hhead := slotUsed_congr (h x List.mem_cons_self)
    have hrest := ih fun y hy => h y (List.mem_cons_of_mem x hy)
    unfold inUse at hrest ⊢
    rw [List.takeWhile_cons, List.takeWhile_cons, hhead, hrest]

theorem slotEntries_eq (d : Disk) : ∀ l,
    slotEntries d l = ((inUse d l).flatMap fun x => shownEntry (entryAt d x), !l.all (slotUsed d))
  | [] => rfl
  | x :: l => by
    have hrest := slotEntries_eq d l
    by_cases hused : slotUsed d x = true
    · have hcons : inUse d (x :: l) = x :: inUse d l := List.takeWhile_cons_of_pos hused
      have hall : (x :: l).all (slotUsed d) = l.all (slotUsed d) := by rw [List.all_cons, hused, Bool.true_and]
      rw [hcons, hall, List.flatMap_cons, slotEntries, hrest]
      unfold shownEntry
      cases hdec : decodeDirectoryEntry (entryAt d x) with
      | «end» =>
        exfalso
        unfold decodeDirectoryEntry at hdec
        dsimp only at hdec
        unfold slotUsed at hused
        rw [if_neg (of_decide_eq_true hused)] at hdec
        split_ifs at hdec
        split at hdec <;> cases hdec
      | skip => rfl
      | normal entry => rfl
    · have hcons : inUse d (x :: l) = [] := List.takeWhile_cons_of_neg hused
      have hall : (x :: l).all (slotUsed d) = false := by
        rw [List.all_cons, Bool.eq_false_iff.mpr hused, Bool.false_and]
      have hzero : (entryAt d x).byte 0 = 0 := by
        by_contra hne
        exact hused (decide_eq_true hne)
      have hdec : decodeDirectoryEntry (entryAt d x) = .end := by
        unfold decodeDirectoryEntry
        rw [if_pos hzero]
      rw [hcons, hall, slotEntries, hdec]
      rfl

end InUse

theorem chainEntries_chain {g : BpbGeometry} {d : Disk} {c : Nat} {chain : List Nat}
    (hactive : g.activeFat = 0) (h : Chain g d c chain) : ∀ n, chain.length ≤ n →
    chainEntries g d n c = ((slotEntries d (dirSlots g chain)).1, .ok) := by
  induction h with
  | last h =>
    intro n hn
    obtain ⟨n, rfl⟩ : ∃ k, n = k + 1 := ⟨n - 1, by rw [List.length_singleton] at hn; omega⟩
    rw [chainEntries, if_pos (link_valid h), activeNext_eq hactive, h, dirSlots_singleton]
    split_ifs <;> rfl
  | @next x y rest h _ ih =>
    intro n hn
    rw [List.length_cons] at hn
    obtain ⟨n, rfl⟩ : ∃ k, n = k + 1 := ⟨n - 1, by omega⟩
    rw [chainEntries, if_pos (link_valid h), activeNext_eq hactive, h, dirSlots_cons, slotEntries_append]
    dsimp only
    rw [ih n (by omega)]
    split_ifs <;> rfl

def Passed (d : Disk) (name : ShortName) (slot : DirectorySlot) : Prop :=
  slotUsed d slot = true ∧ isHit d name slot = false

def noted (d : Disk) (l : List DirectorySlot) (st : FreeSearch) : FreeSearch :=
  l.foldl (fun st slot => st.note (entryAt d slot) slot) st

section Search
variable {g : BpbGeometry} {d : Disk} {name : ShortName} {c : Nat}

inductive Scanned (d : Disk) (name : ShortName) (c : Nat) (l : List DirectorySlot) (st : FreeSearch) :
    FreeSearch ⊕ Search → Prop
  | found (pre post : List DirectorySlot) (slot : DirectorySlot) (split : l = pre ++ slot :: post)
      (passed : ∀ x ∈ pre, Passed d name x) (used : slotUsed d slot = true)
      (hit : isHit d name slot = true) : Scanned d name c l st (.inr (.found slot (entryAt d slot)))
  | endMarker (pre post : List DirectorySlot) (slot : DirectorySlot) (split : l = pre ++ slot :: post)
      (passed : ∀ x ∈ pre, Passed d name x) (unused : slotUsed d slot = false) :
      Scanned d name c l st (.inr (.notFound ((noted d pre st).note (entryAt d slot) slot) c))
  | through (passed : ∀ x ∈ l, Passed d name x) : Scanned d name c l st (.inl (noted d l st))

theorem Scanned.cons {l : List DirectorySlot} {slot : DirectorySlot} {st : FreeSearch}
    {r : FreeSearch ⊕ Search} (hslot : Passed d name slot)
    (h : Scanned d name c l (st.note (entryAt d slot) slot) r) : Scanned d name c (slot :: l) st r := by
  cases h with
  | found pre post x split passed used hit =>
    exact .found (slot :: pre) post x (by rw [split, List.cons_append])
      (List.forall_mem_cons.mpr ⟨hslot, passed⟩) used hit
  | endMarker pre post x split passed unused =>
    exact .endMarker (slot :: pre) post x (by rw [split, List.cons_append])
      (List.forall_mem_cons.mpr ⟨hslot, passed⟩) unused
  | through passed => exact .through (List.forall_mem_cons.mpr ⟨hslot, passed⟩)

theorem scanSlots_scanned (d : Disk) (name : ShortName) (c : Nat) : ∀ l st,
    Scanned d name c l st (scanSlots d name c l st)
  | [], st => .through fun _ hx => (nomatch hx)
  | slot :: l, st => by
    rw [scanSlots]
    by_cases hzero : (entryAt d slot).byte 0 = 0
    · rw [if_pos hzero]
      exact .endMarker [] l slot rfl (fun _ hx => (nomatch hx)) (decide_eq_false (not_not.mpr hzero))
    · have hused : slotUsed d slot = true := decide_eq_true hzero
      rw [if_neg hzero]
      by_cases hhit : liveShortEntry (entryAt d slot) = true ∧ nameMatches (entryAt d slot) name = true
      · rw [if_pos hhit]
        exact .found [] l slot rfl (fun _ hx => (nomatch hx)) hused (Bool.and_eq_true_iff.mpr hhit)
      · rw [if_neg hhit]
        have hmiss : isHit d name slot = false :=
          Bool.eq_false_iff.mpr fun h => hhit (Bool.and_eq_true_iff.mp h)
        exact .cons ⟨hused, hmiss⟩ (scanSlots_scanned d name c l _)

inductive Searched (g : BpbGeometry) (d : Disk) (name : ShortName) (chain : List Nat) (st : FreeSearch) :
    Search → Prop
  | found (pre post : List DirectorySlot) (slot : DirectorySlot)
      (split : dirSlots g chain = pre ++ slot :: post) (passed : ∀ x ∈ pre, Passed d name x)
      (used : slotUsed d slot = true) (hit : isHit d name slot = true) :
      Searched g d name chain st (.found slot (entryAt d slot))
  | endMarker (before after : List Nat) (tail : Nat) (pre post : List DirectorySlot)
      (slot : DirectorySlot) (clusters : chain = before ++ tail :: after)
      (split : clusterSlots g tail = pre ++ slot :: post)
      (passed : ∀ x ∈ dirSlots g before ++ pre, Passed d name x) (unused : slotUsed d slot = false) :
      Searched g d name chain st
        (.notFound ((noted d (dirSlots g before ++ pre) st).note (entryAt d slot) slot) tail)
  | through (before : List Nat) (tail : Nat) (clusters : chain = before ++ [tail])
      (passed : ∀ x ∈ dirSlots g chain, Passed d name x) :
      Searched g d name chain st (.notFound (noted d (dirSlots g chain) st) tail)

theorem Searched.cons {chain : List Nat} {st : FreeSearch} {r : Search}
    (hpassed : ∀ x ∈ clusterSlots g c, Passed d name x)
    (h : Searched g d name chain (noted d (clusterSlots g c) st) r) :
    Searched g d name (c :: chain) st r := by
  have hnoted : ∀ l, noted d l (noted d (clusterSlots g c) st) = noted d (clusterSlots g c ++ l) st :=
    fun l => List.foldl_append.symm
  have hall : ∀ l, (∀ x ∈ l, Passed d name x) → ∀ x ∈ clusterSlots g c ++ l, Passed d name x :=
    fun l hl x hx => (List.mem_append.mp hx).elim (hpassed x) (hl x)
  cases h with
  | found pre post slot split passed used hit =>
    refine .found (clusterSlots g c ++ pre) post slot ?_ (hall pre passed) used hit
    rw [dirSlots_cons, split, List.append_assoc]
  | endMarker before after tail pre post slot clusters split passed unused =>
    have hchain : c :: chain = c :: before ++ tail :: after := by rw [clusters, List.cons_append]
    have hsearched := @Searched.endMarker g d name _ st (c :: before) after tail pre post slot hchain split
      (by rw [dirSlots_cons, List.append_assoc]; exact hall _ passed) unused
    rw [hnoted]
    rw [dirSlots_cons, List.append_assoc] at hsearched
    exact hsearched
  | through before tail clusters passed =>
    have hchain : c :: chain = c :: before ++ [tail] := by rw [clusters, List.cons_append]
    have hsearched := @Searched.through g d name _ st (c :: before) tail hchain (by rw [dirSlots_cons]; exact hall _ passed)
    rw [hnoted]
    rw [dirSlots_cons] at hsearched
    exact hsearched

variable {n : Nat} (hg : g.Sound n)
include hg

theorem findInClusters_searched {chain : List Nat} (h : Chain g d c chain) : ∀ m st, chain.length ≤ m →
    ∃ r, value (findInClusters g name m c st) d = .ok r ∧ Searched g d name chain st r := by
  induction h with
  | @last x h =>
    intro m st hm
    obtain ⟨m, rfl⟩ : ∃ k, m = k + 1 := ⟨m - 1, by rw [List.length_singleton] at hm; omega⟩
    have hscan := scanSlots_scanned d name x (clusterSlots g x) st
    rw [value_findInClusters hg, h, linkResult_some]
    generalize scanSlots d name x (clusterSlots g x) st = r at hscan
    cases hscan with
    | found pre post slot split passed used hit =>
      exact ⟨_, rfl, .found pre post slot (by rw [dirSlots_singleton]; exact split) passed used hit⟩
    | endMarker pre post slot split passed unused =>
      exact ⟨_, rfl, .endMarker [] [] x pre post slot rfl split passed unused⟩
    | through passed =>
      rw [← dirSlots_singleton] at passed ⊢
      exact ⟨_, rfl, .through [] x rfl passed⟩
  | @next x y rest h _ ih =>
    intro m st hm
    rw [List.length_cons] at hm
    obtain ⟨m, rfl⟩ : ∃ k, m = k + 1 := ⟨m - 1, by omega⟩
    have hscan := scanSlots_scanned d name x (clusterSlots g x) st
    rw [value_findInClusters hg, h, linkResult_some]
    generalize scanSlots d name x (clusterSlots g x) st = r at hscan
    cases hscan with
    | found pre post slot split passed used hit =>
      refine ⟨_, rfl, .found pre (post ++ dirSlots g rest) slot ?_ passed used hit⟩
      rw [dirSlots_cons, split, List.append_assoc, List.cons_append]
    | endMarker pre post slot split passed unused =>
      exact ⟨_, rfl, .endMarker [] rest x pre post slot rfl split passed unused⟩
    | through passed =>
      obtain ⟨r, hvalue, hsearched⟩ := ih m (noted d (clusterSlots g x) st) (by omega)
      exact ⟨r, hvalue, hsearched.cons passed⟩

theorem findInDirectory_searched {chain : List Nat} (h : Chain g d c chain) (name : ShortName) :
    ∃ r, value (findInDirectory g c name) d = .ok r ∧ Searched g d name chain .none r := by
  have hc := h.valid c h.head_mem
  unfold findInDirectory
  rw [if_neg (by rw [hc]; decide)]
  exact findInClusters_searched hg h _ _ h.length_le

end Search

def slotDeleted (d : Disk) (slot : DirectorySlot) : Bool := (entryAt d slot).byte 0 = 0xE5

/-- Where `create_directory_entry` can put an entry: a deleted slot, the end marker, or nowhere. -/
inductive Vacancy (g : BpbGeometry) (d : Disk) (chain : List Nat) : FreeSearch → Nat → Prop
  | deleted (pre post : List DirectorySlot) (slot : DirectorySlot) (tail : Nat)
      (split : dirSlots g chain = pre ++ slot :: post) (used : ∀ x ∈ pre, slotUsed d x = true)
      (deleted : slotDeleted d slot = true) : Vacancy g d chain ⟨true, slot, false⟩ tail
  | atEnd (before after : List Nat) (tail : Nat) (pre post : List DirectorySlot) (slot : DirectorySlot)
      (clusters : chain = before ++ tail :: after) (split : clusterSlots g tail = pre ++ slot :: post)
      (used : ∀ x ∈ dirSlots g before ++ pre, slotUsed d x = true) (unused : slotUsed d slot = false) :
      Vacancy g d chain ⟨true, slot, true⟩ tail
  | full (before : List Nat) (tail : Nat) (clusters : chain = before ++ [tail])
      (used : ∀ x ∈ dirSlots g chain, slotUsed d x = true) : Vacancy g d chain .none tail

section Vacancy
variable {g : BpbGeometry} {d : Disk} {chain : List Nat}

theorem noted_have (d : Disk) (l : List DirectorySlot) {st : FreeSearch} (h : st.haveFree = true) :
    noted d l st = st := by
  induction l with
  | nil => rfl
  | cons slot l ih =>
    have hnote : st.note (entryAt d slot) slot = st := by
      unfold FreeSearch.note
      rw [if_neg fun hnot => by rw [h] at hnot; exact absurd hnot.2 (by decide)]
    show noted d l (st.note (entryAt d slot) slot) = st
    rw [hnote, ih]

theorem noted_none : ∀ l : List DirectorySlot, (∀ x ∈ l, slotUsed d x = true) →
    noted d l .none = .none ∧ (∀ x ∈ l, slotDeleted d x = false) ∨
      ∃ pre slot post, l = pre ++ slot :: post ∧ slotDeleted d slot = true ∧
        noted d l .none = ⟨true, slot, false⟩
  | [], _ => Or.inl ⟨rfl, fun _ hx => (nomatch hx)⟩
  | slot :: l, hused => by
    have hzero : (entryAt d slot).byte 0 ≠ 0 := of_decide_eq_true (hused slot List.mem_cons_self)
    by_cases hdel : (entryAt d slot).byte 0 = 0xE5
    · have hnote : FreeSearch.none.note (entryAt d slot) slot = ⟨true, slot, false⟩ := by
        unfold FreeSearch.note
        rw [if_pos ⟨Or.inr hdel, rfl⟩, decide_eq_false hzero]
      refine Or.inr ⟨[], slot, l, rfl, decide_eq_true hdel, ?_⟩
      show noted d l (FreeSearch.none.note (entryAt d slot) slot) = _
      rw [hnote, noted_have d l rfl]
    · have hnote : FreeSearch.none.note (entryAt d slot) slot = .none := by
        unfold FreeSearch.note
        rw [if_neg fun h => h.1.elim hzero hdel]
      have hcons : noted d (slot :: l) .none = noted d l .none := by
        show noted d l (FreeSearch.none.note (entryAt d slot) slot) = _
        rw [hnote]
      rw [hcons]
      rcases noted_none l fun x hx => hused x (List.mem_cons_of_mem slot hx) with
        ⟨hnone, hall⟩ | ⟨pre, x, post, hl, hx, hsome⟩
      · exact Or.inl ⟨hnone, List.forall_mem_cons.mpr ⟨decide_eq_false hdel, hall⟩⟩
      · exact Or.inr ⟨slot :: pre, x, post, by rw [hl, List.cons_append], hx, hsome⟩

theorem Searched.vacancy {name : ShortName} {free : FreeSearch} {tail : Nat}
    (h : Searched g d name chain .none (.notFound free tail)) :
    Vacancy g d chain free tail ∧ ∀ x ∈ inUse d (dirSlots g chain), isHit d name x = false := by
  cases h with
  | endMarker before after tail pre post slot clusters split passed unused =>
    have hused : ∀ x ∈ dirSlots g before ++ pre, slotUsed d x = true := fun x hx => (passed x hx).1
    have hslots : dirSlots g chain = dirSlots g before ++ pre ++ slot :: (post ++ dirSlots g after) := by
      rw [clusters, dirSlots_split split]
    constructor
    · rcases noted_none _ hused with ⟨hnone, -⟩ | ⟨before', x, after', hl, hx, hsome⟩
      · have hzero : (entryAt d slot).byte 0 = 0 := by
          by_contra hne
          rw [show slotUsed d slot = true from decide_eq_true hne] at unused
          cases unused
        have hnote : FreeSearch.none.note (entryAt d slot) slot = ⟨true, slot, true⟩ := by
          unfold FreeSearch.note
          rw [if_pos ⟨Or.inl hzero, rfl⟩, decide_eq_true hzero]
        rw [hnone, hnote]
        exact .atEnd before after tail pre post slot clusters split hused unused
      · have hnote : FreeSearch.note ⟨true, x, false⟩ (entryAt d slot) slot = ⟨true, x, false⟩ :=
          noted_have d [slot] rfl
        rw [hsome, hnote]
        refine .deleted before' (after' ++ slot :: (post ++ dirSlots g after)) x tail ?_ ?_ hx
        · rw [hslots, hl, List.append_assoc, List.cons_append]
        · exact fun y hy => hused y (hl ▸ List.mem_append_left _ hy)
    · rw [hslots, inUse_end hused unused]
      exact fun x hx => (passed x hx).2
  | through before tail clusters passed =>
    have hused : ∀ x ∈ dirSlots g chain, slotUsed d x = true := fun x hx => (passed x hx).1
    constructor
    · rcases noted_none _ hused with ⟨hnone, -⟩ | ⟨before', x, after', hl, hx, hsome⟩
      · rw [hnone]
        exact .full before tail clusters hused
      · rw [hsome]
        exact .deleted before' after' x tail hl (fun y hy => hused y (hl ▸ List.mem_append_left _ hy)) hx
    · rw [inUse_all hused]
      exact fun x hx => (passed x hx).2

theorem findInDirectory_cases {n c : Nat} (hg : g.Sound n) (h : Chain g d c chain) (name : ShortName) :
    (∃ slot, (inUse d (dirSlots g chain)).find? (isHit d name) = some slot ∧
      value (findInDirectory g c name) d = .ok (.found slot (entryAt d slot))) ∨
    ((inUse d (dirSlots g chain)).find? (isHit d name) = none ∧
      ∃ free tail, value (findInDirectory g c name) d = .ok (.notFound free tail) ∧
        Vacancy g d chain free tail) := by
  obtain ⟨r, hvalue, hsearched⟩ := findInDirectory_searched hg h name
  cases r with
  | found slot entry =>
    left
    cases hsearched with
    | found pre post _ split passed used hit =>
      refine ⟨slot, ?_, hvalue⟩
      rw [split, inUse_used (fun x hx => (passed x hx).1) used, List.find?_append,
        List.find?_cons_of_pos hit, List.find?_eq_none.mpr fun x hx => ?_, Option.none_or]
      rw [(passed x hx).2]
      decide
  | notFound free tail =>
    obtain ⟨hvacancy, hmiss⟩ := hsearched.vacancy
    refine Or.inr ⟨List.find?_eq_none.mpr fun x hx => ?_, free, tail, hvalue, hvacancy⟩
    rw [hmiss x hx]
    decide

end Vacancy

def putSlot (d : Disk) (slot : DirectorySlot) (e : Entry) : Disk :=
  Function.update d slot.lba (Sector.setSlot (d slot.lba) slot.offset e)

def clearSlot (d : Disk) (slot : DirectorySlot) : Disk :=
  Function.update d slot.lba ((d slot.lba).setByte slot.offset 0)

def Aligned (slot : DirectorySlot) : Prop := ∃ j, j < 16 ∧ slot.offset = j * 32

section Updates
variable {g : BpbGeometry} {d : Disk} {slot slot' : DirectorySlot}

theorem aligned_of_mem {chain : List Nat} (h : slot ∈ dirSlots g chain) : Aligned slot := by
  obtain ⟨x, -, i, j, -, hj, rfl⟩ := mem_dirSlots.mp h
  exact ⟨j, hj, rfl⟩

theorem entryAt_putSlot_self (h : Aligned slot) (e : Entry) : entryAt (putSlot d slot e) slot = e := by
  obtain ⟨j, hj, hoff⟩ := h
  funext i
  have hi := i.isLt
  unfold entryAt putSlot Sector.slot
  rw [Function.update_self]
  unfold Sector.byte Sector.setSlot Entry.byte
  rw [dif_pos (by omega), if_pos ⟨by dsimp only; omega, by dsimp only; omega⟩]
  dsimp only
  rw [dif_pos (by omega)]
  congr 1
  exact Fin.ext (by dsimp only; omega)

theorem entryAt_update {s : Sector} (h : Aligned slot) (h' : Aligned slot') (hne : slot' ≠ slot)
    (hs : ∀ j : Fin 512, j.val < slot.offset ∨ slot.offset + 32 ≤ j.val → s j = d slot.lba j) :
    entryAt (Function.update d slot.lba s) slot' = entryAt d slot' := by
  obtain ⟨j, hj, hoff⟩ := h
  obtain ⟨j', hj', hoff'⟩ := h'
  unfold entryAt
  by_cases hlba : slot'.lba = slot.lba
  · have hoffne : j' ≠ j := by
      rintro rfl
      apply hne
      cases slot
      cases slot'
      rw [DirectorySlot.mk.injEq]
      exact ⟨hlba, hoff'.trans hoff.symm⟩
    rw [hlba, Function.update_self]
    funext i
    have hi := i.isLt
    unfold Sector.slot Sector.byte
    rw [dif_pos (by omega), dif_pos (by omega)]
    exact hs _ (by dsimp only; omega)
  · rw [Function.update_of_ne hlba]

theorem entryAt_putSlot_ne (h : Aligned slot) (h' : Aligned slot') (hne : slot' ≠ slot) (e : Entry) :
    entryAt (putSlot d slot e) slot' = entryAt d slot' := by
  refine entryAt_update h h' hne fun j hj => ?_
  unfold Sector.setSlot
  rw [if_neg (by omega)]

theorem entryAt_clearSlot_ne (h : Aligned slot) (h' : Aligned slot') (hne : slot' ≠ slot) :
    entryAt (clearSlot d slot) slot' = entryAt d slot' := by
  refine entryAt_update h h' hne fun j hj => ?_
  unfold Sector.setByte
  rw [if_neg (by omega)]

theorem slotUsed_clearSlot (h : Aligned slot) : slotUsed (clearSlot d slot) slot = false := by
  obtain ⟨j, hj, hoff⟩ := h
  apply decide_eq_false
  rw [not_not]
  unfold entryAt clearSlot
  rw [Function.update_self]
  unfold Entry.byte Sector.slot
  rw [dif_pos (by decide)]
  show Sector.byte _ (slot.offset + 0) = 0
  rw [Nat.add_zero, Sector.byte_setByte _ _ _ _ (by omega), if_pos rfl]

end Updates

end Linux95.Fat32
