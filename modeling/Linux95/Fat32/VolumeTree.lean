import Linux95.Base.Naming
import Linux95.Fat32.EntryTransfers
import Linux95.Fat32.Slices

/-! The volume as a tree of names: what every path stands for, and what an edit of the directories makes of
it. -/

namespace Linux95.Fat32
open Base Storage Write

/-- What an entry stands for: the bytes of a file, or a directory by its first cluster. -/
inductive Stored where
  | file (contents : List UInt8)
  | directory (first : Nat)

def fileBytes (g : BpbGeometry) (d : Disk) (first size : Nat) : List UInt8 :=
  (List.range size).filterMap (fileByte g d first)

def stored (g : BpbGeometry) (d : Disk) (e : Entry) : Stored :=
  if isDirectoryEntry e then .directory (firstCluster e) else .file (fileBytes g d (firstCluster e) (le32 e.byte 28))

def Stored.child : Stored → Option Nat
  | .file _ => none
  | .directory first => some first

def naming (g : BpbGeometry) (d : Disk) : Naming Nat ShortName Stored where
  root := g.rootCluster
  find := fun c name => ((objectSlots g d c).find? fun s => decide ((entryAt d s).name = name)).map fun s => stored g d (entryAt d s)
  child := Stored.child

inductive Node where
  | file (contents : List UInt8)
  | directory

def Stored.node : Stored → Node
  | .file contents => .file contents
  | .directory _ => .directory

abbrev Tree := List ShortName → Option Node

def tree (g : BpbGeometry) (d : Disk) : Tree := fun path =>
  if path = [] then some .directory else ((naming g d).get g.rootCluster path).map Stored.node

section FileBytes
variable {g : BpbGeometry} {n : Nat} (hg : g.Sound n) {d d' : Disk} {c size : Nat} {l : List Nat}

theorem filterMap_range {α : Type} (xs : List α) (size : Nat) :
    (List.range size).filterMap (fun i => xs[i]?) = xs.take size := by
  induction size with
  | zero => rfl
  | succ size ih =>
    rw [List.range_succ, List.filterMap_append, ih, List.take_add_one]
    congr 1

theorem fileBytes_zero : fileBytes g d c 0 = [] := rfl

include hg

theorem fileBytes_chain (hactive : g.activeFat = 0) (hl : Chain g d c l) :
    fileBytes g d c size = (chainBytes g d l).take size := by
  have hpath : Path (activeNext g d) c l := by
    rw [show activeNext g d = link g d from funext (activeNext_eq hactive d)]
    exact hl
  unfold fileBytes
  rw [show fileByte g d c = fun i => (chainBytes g d l)[i]? from funext (fileByte_path hg hpath)]
  exact filterMap_range _ size

theorem fileBytes_kept (hactive : g.activeFat = 0) (hl : Chain g d c l) (hl' : Chain g d' c l)
    (hdata : ∀ x ∈ l, ∀ i, i < g.sectorsPerCluster → d' (g.dataLba x i) = d (g.dataLba x i)) :
    fileBytes g d' c size = fileBytes g d c size := by
  have hbytes : chainBytes g d' l = chainBytes g d l := by
    refine List.flatMap_congr fun x hx => List.flatMap_congr fun i hi => ?_
    rw [hdata x hx i (List.mem_range.mp hi)]
  rw [fileBytes_chain hg hactive hl, fileBytes_chain hg hactive hl', hbytes]

end FileBytes

section Find
variable {g : BpbGeometry} {d : Disk} {loose : List Nat} {c c' : Nat} {name : ShortName} {v : Stored} {q : List ShortName}
  {s : DirectorySlot}

theorem stored_child {e : Entry} {m : Nat} :
    (stored g d e).child = some m ↔ isDirectoryEntry e = true ∧ firstCluster e = m := by
  unfold stored
  split_ifs with h
  · exact ⟨fun hm => ⟨h, Option.some.inj hm⟩, fun hm => congrArg some hm.2⟩
  · exact ⟨nofun, fun hm => absurd hm.1 h⟩

theorem find_mem (h : (naming g d).find c name = some v) :
    ∃ s ∈ objectSlots g d c, (entryAt d s).name = name ∧ stored g d (entryAt d s) = v := by
  obtain ⟨s, hs, hv⟩ := Option.map_eq_some_iff.mp h
  have hname : decide ((entryAt d s).name = name) = true := by
    exact List.find?_some (p := fun s => decide ((entryAt d s).name = name)) hs
  exact ⟨s, List.mem_of_find?_eq_some hs, of_decide_eq_true hname, hv⟩

theorem find_none_iff : (naming g d).find c name = none ↔ ∀ s ∈ objectSlots g d c, (entryAt d s).name ≠ name := by
  unfold naming
  simp

theorem walk_directory (h : (naming g d).walk g.rootCluster q = some c) : Directory g d c := by
  induction q using List.reverseRecOn generalizing c with
  | nil =>
    obtain rfl := Option.some.inj h
    exact .root
  | append_singleton q name ih =>
    rw [Naming.walk_concat] at h
    obtain ⟨m, hm, hstep⟩ := Option.bind_eq_some_iff.mp h
    obtain ⟨v, hv, hchild⟩ := Option.bind_eq_some_iff.mp hstep
    obtain ⟨s, hs, -, rfl⟩ := find_mem hv
    obtain ⟨hdirectory, rfl⟩ := stored_child.mp hchild
    exact .child (ih hm) hs hdirectory

section Owned
variable (hd : Owned g d loose)
include hd

theorem Owned.find_iff (hc : Directory g d c) : (naming g d).find c name = some v ↔
    ∃ s ∈ objectSlots g d c, (entryAt d s).name = name ∧ stored g d (entryAt d s) = v := by
  refine ⟨find_mem, ?_⟩
  rintro ⟨s, hs, hname, rfl⟩
  cases hfind : (naming g d).find c name with
  | none => exact absurd hname (find_none_iff.mp hfind s hs)
  | some v =>
    obtain ⟨s', hs', hname', rfl⟩ := find_mem hfind
    rw [hd.distinct c s' s hc hs' hs (hname'.trans hname.symm)]

theorem Owned.slot_unique (hc : Directory g d c) (hc' : Directory g d c') (h : s ∈ usedSlots g d c)
    (h' : s ∈ usedSlots g d c') : c = c' := by
  by_contra hne
  obtain ⟨l, hl⟩ := hd.directories c hc
  obtain ⟨l', hl'⟩ := hd.directories c' hc'
  obtain ⟨x, hx, i, j, hi, -, rfl⟩ := mem_dirSlots.mp (used_dirSlots hl h)
  obtain ⟨x', hx', i', j', hi', -, heq⟩ := mem_dirSlots.mp (used_dirSlots hl' h')
  have hsame := (dataLba_inj (hl.valid x hx) (hl'.valid x' hx') hi hi' (congrArg DirectorySlot.lba heq)).1
  rw [← hsame] at hx'
  exact hd.directories_apart hc hc' hne hl hl' hx hx'

theorem Owned.unique : (naming g d).Unique := by
  constructor
  case parent =>
    intro q q' c c' name name' v v' m hq hq' hv hv' hchild hchild'
    have hc := walk_directory hq
    have hc' := walk_directory hq'
    obtain ⟨s, hs, rfl, rfl⟩ := find_mem hv
    obtain ⟨s', hs', rfl, rfl⟩ := find_mem hv'
    obtain ⟨hdirectory, rfl⟩ := stored_child.mp hchild
    obtain ⟨-, hfirst⟩ := stored_child.mp hchild'
    obtain ⟨l, hl⟩ := hd.directories _ (.child hc hs hdirectory)
    have hsame : s = s' := by
      by_contra hne
      have hl' : Chain g d (firstCluster (entryAt d s')) l := by
        rw [hfirst]
        exact hl
      exact hd.disjoint _ _ _ _ l l (.entry hc hs) (.entry hc' hs') (fun h => hne (Option.some.inj h)) hl hl' hl.head_mem
        hl.head_mem
    subst hsame
    exact ⟨hd.slot_unique hc hc' (mem_objectSlots.mp hs).1 (mem_objectSlots.mp hs').1, rfl⟩
  case root =>
    intro q c name v hq hv hchild
    have hc := walk_directory hq
    obtain ⟨s, hs, -, rfl⟩ := find_mem hv
    obtain ⟨-, hfirst⟩ := stored_child.mp hchild
    obtain ⟨l, hl⟩ := hd.directories g.rootCluster .root
    have hl' : Chain g d (firstCluster (entryAt d s)) l := by
      rw [hfirst]
      exact hl
    exact hd.disjoint none (some s) _ _ l l .root (.entry hc hs) (fun h => nomatch h) hl hl' hl.head_mem hl.head_mem

end Owned

end Find

section Edits
variable {g : BpbGeometry} {n : Nat} (hg : g.Sound n) (hactive : g.activeFat = 0) {d d' : Disk} {p c : Nat}
  {gone new : Option DirectorySlot} {grow loose loose' l : List Nat} {s : DirectorySlot} {name name' : ShortName}
  {q : List ShortName} (hd : Owned g d loose) (hd' : Owned g d' loose') (h : Edited g d d' p gone new grow)

theorem Edited.fileBytes_kept {n : Nat} (hg : g.Sound n) (hactive : g.activeFat = 0) (hd : Owned g d loose)
    (h : Edited g d d' p gone new grow) (hc : Directory g d c) (hs : s ∈ objectSlots g d c)
    (hfile : isDirectoryEntry (entryAt d s) = false) :
    fileBytes g d' (firstCluster (entryAt d s)) (le32 (entryAt d s).byte 28) =
      fileBytes g d (firstCluster (entryAt d s)) (le32 (entryAt d s).byte 28) := by
  obtain ⟨hzero, hchain⟩ := hd.files c s hc hs hfile
  by_cases hfirst : firstCluster (entryAt d s) = 0
  · rw [hzero.mp hfirst, fileBytes_zero, fileBytes_zero]
  · obtain ⟨l, hl, -⟩ := hchain hfirst
    have hne := h.file_elsewhere hd hc hs hfile hl
    have hl' := h.chains _ _ l (.entry hc hs) hl
    rw [if_neg hne] at hl'
    exact Fat32.fileBytes_kept hg hactive hl hl' (h.data _ _ l (.entry hc hs) hne hl)

theorem Edited.gone_empty {d d' : Disk} {p c : Nat} {gone new : Option DirectorySlot} {grow : List Nat}
    (h : Edited g d d' p gone new grow) (hc : Directory g d c) (hc' : ¬ Directory g d' c) : objectSlots g d c = [] := by
  rcases h.edit.after (directory_iff.mp hc) with hstill | ⟨-, -, -, -, hempty⟩
  · exact absurd (directory_iff.mpr hstill) hc'
  · refine List.eq_nil_iff_forall_not_mem.mpr fun x hx => ?_
    have hmem : x ∈ (forest g d).slots c := hx
    rw [hempty] at hmem
    cases hmem

include hg hactive hd h

theorem Edited.stored_kept (hc : Directory g d c) (hs : s ∈ objectSlots g d c) :
    stored g d' (entryAt d s) = stored g d (entryAt d s) := by
  unfold stored
  split_ifs with hfile
  · exact Eq.refl _
  · rw [h.fileBytes_kept hg hactive hd hc hs (Bool.eq_false_iff.mpr hfile)]

include hd'

theorem Edited.find_iff (hc : Directory g d c) {v : Stored} : (naming g d').find c name = some v ↔
    (∃ s ∈ objectSlots g d c, gone ≠ some s ∧ (entryAt d s).name = name ∧ stored g d (entryAt d s) = v) ∨
      c = p ∧ ∃ s, new = some s ∧ (entryAt d' s).name = name ∧ stored g d' (entryAt d' s) = v := by
  have hslots : ∀ s, s ∈ objectSlots g d' c ↔ s ∈ objectSlots g d c ∧ gone ≠ some s ∨ c = p ∧ new = some s :=
    fun s => h.edit.slots c (directory_iff.mp hc) s
  have hforward : (∃ s ∈ objectSlots g d' c, (entryAt d' s).name = name ∧ stored g d' (entryAt d' s) = v) ↔
      (∃ s ∈ objectSlots g d c, gone ≠ some s ∧ (entryAt d s).name = name ∧ stored g d (entryAt d s) = v) ∨
        c = p ∧ ∃ s, new = some s ∧ (entryAt d' s).name = name ∧ stored g d' (entryAt d' s) = v := by
    constructor
    · rintro ⟨s, hs, hname, hv⟩
      rcases (hslots s).mp hs with ⟨hold, hkept⟩ | ⟨hplace, hnew⟩
      · rw [h.entries c s hc hold hkept] at hname hv
        rw [h.stored_kept hg hactive hd hc hold] at hv
        exact Or.inl ⟨s, hold, hkept, hname, hv⟩
      · exact Or.inr ⟨hplace, s, hnew, hname, hv⟩
    · rintro (⟨s, hold, hkept, hname, hv⟩ | ⟨hplace, s, hnew, hname, hv⟩)
      · refine ⟨s, (hslots s).mpr (Or.inl ⟨hold, hkept⟩), ?_, ?_⟩
        · rw [h.entries c s hc hold hkept]
          exact hname
        · rw [h.entries c s hc hold hkept, h.stored_kept hg hactive hd hc hold]
          exact hv
      · exact ⟨s, (hslots s).mpr (Or.inr ⟨hplace, hnew⟩), hname, hv⟩
  rw [← hforward]
  by_cases hc' : Directory g d' c
  · exact hd'.find_iff hc'
  -- the directory is gone, and was empty
  · have hempty := h.gone_empty hc hc'
    have hempty' : ∀ s, s ∉ objectSlots g d' c := by
      intro s hs
      rcases (hslots s).mp hs with ⟨hold, -⟩ | ⟨rfl, -⟩
      · rw [hempty] at hold
        cases hold
      · exact hc' h.place
    refine ⟨find_mem, ?_⟩
    rintro ⟨s, hs, -⟩
    exact absurd hs (hempty' s)

theorem Edited.find_other (hgone : ∀ s, gone = some s → s ∈ objectSlots g d p ∧ (c = p → (entryAt d s).name ≠ name))
    (hnew : ∀ s, c = p → new = some s → (entryAt d' s).name ≠ name) (hc : Directory g d c) :
    (naming g d').find c name = (naming g d).find c name := by
  refine Option.ext fun v => ?_
  rw [h.find_iff hg hactive hd hd' hc, hd.find_iff hc]
  constructor
  · rintro (⟨s, hs, -, hname, hv⟩ | ⟨hplace, s, hs, hname, -⟩)
    · exact ⟨s, hs, hname, hv⟩
    · exact absurd hname (hnew s hplace hs)
  · rintro ⟨s, hs, hname, hv⟩
    refine Or.inl ⟨s, hs, fun hsame => ?_, hname, hv⟩
    obtain ⟨hmem, hother⟩ := hgone s hsame
    have hplace := hd.slot_unique hc (directory_iff.mpr h.edit.found) (mem_objectSlots.mp hs).1 (mem_objectSlots.mp hmem).1
    exact hother hplace hname

theorem Edited.sets (hgone : ∀ s, gone = some s → s ∈ objectSlots g d p ∧ (entryAt d s).name = name)
    (habsent : gone = none → ∀ s ∈ objectSlots g d p, (entryAt d s).name ≠ name)
    (hnew : ∀ s, new = some s → (entryAt d' s).name = name) :
    (naming g d).Sets (naming g d') p name (new.map fun s => stored g d' (entryAt d' s)) := by
  have hp := directory_iff.mpr h.edit.found
  constructor
  case root => rfl
  case child => rfl
  case here =>
    refine Option.ext fun v => ?_
    rw [h.find_iff hg hactive hd hd' hp, Option.map_eq_some_iff]
    constructor
    · rintro (⟨s, hs, hkept, hname, -⟩ | ⟨-, s, hs, -, hv⟩)
      · cases hcase : gone with
        | none => exact absurd hname (habsent hcase s hs)
        | some s' =>
          obtain ⟨hmem, hname'⟩ := hgone s' hcase
          rw [hd.distinct p s s' hp hs hmem (hname.trans hname'.symm)] at hkept
          exact absurd hcase hkept
      · exact ⟨s, hs, hv⟩
    · rintro ⟨s, hs, hv⟩
      exact Or.inr ⟨rfl, s, hs, hnew s hs, hv⟩
  case other =>
    intro q c name' hq hother
    refine h.find_other hg hactive hd hd' (fun s hs => ⟨(hgone s hs).1, fun hplace => ?_⟩) (fun s hplace hs => ?_)
      (walk_directory hq)
    · rw [(hgone s hs).2]
      exact (hother hplace).symm
    · rw [hnew s hs]
      exact (hother hplace).symm

theorem Edited.renames {slot : DirectorySlot} (hgone : gone = some slot) (hnew : new = some slot)
    (hslot : slot ∈ objectSlots g d p) (hname : (entryAt d slot).name = name) (hname' : (entryAt d' slot).name = name')
    (hne : name ≠ name') (habsent : ∀ s ∈ objectSlots g d p, (entryAt d s).name ≠ name')
    (hstored : stored g d' (entryAt d' slot) = stored g d (entryAt d slot)) :
    (naming g d).Renames (naming g d') p name name' := by
  have hp := directory_iff.mpr h.edit.found
  constructor
  case root => rfl
  case child => rfl
  case gone =>
    refine Option.eq_none_iff_forall_ne_some.mpr fun v hv => ?_
    rcases (h.find_iff hg hactive hd hd' hp).mp hv with ⟨s, hs, hkept, hsame, -⟩ | ⟨-, s, hs, hsame, -⟩
    · rw [hd.distinct p s slot hp hs hslot (hsame.trans hname.symm)] at hkept
      exact hkept hgone
    · obtain rfl := Option.some.inj (hs.symm.trans hnew)
      exact hne (hsame.symm.trans hname')
  case here =>
    refine Option.ext fun v => ?_
    rw [h.find_iff hg hactive hd hd' hp, hd.find_iff hp]
    constructor
    · rintro (⟨s, hs, -, hsame, -⟩ | ⟨-, s, hs, -, hv⟩)
      · exact absurd hsame (habsent s hs)
      · obtain rfl := Option.some.inj (hs.symm.trans hnew)
        exact ⟨s, hslot, hname, hstored.symm.trans hv⟩
    · rintro ⟨s, hs, hsame, hv⟩
      obtain rfl := hd.distinct p s slot hp hs hslot (hsame.trans hname.symm)
      exact Or.inr ⟨rfl, s, hnew, hname', hstored.trans hv⟩
  case other =>
    intro q c name'' hq hother
    refine h.find_other hg hactive hd hd' (fun s hs => ?_) (fun s hplace hs => ?_) (walk_directory hq)
    · obtain rfl := Option.some.inj (hs.symm.trans hgone)
      refine ⟨hslot, fun hplace => ?_⟩
      rw [hname]
      exact (hother hplace).1.symm
    · obtain rfl := Option.some.inj (hs.symm.trans hnew)
      rw [hname']
      exact (hother hplace).2.symm

end Edits

def Tree.put (t : Tree) (path : List ShortName) (node : Option Node) : Tree := fun path' =>
  if path' = path then node else t path'

def Tree.rename (t : Tree) (parent : List ShortName) (old new : ShortName) : Tree := fun path =>
  if parent ++ [new] <+: path then t (parent ++ old :: path.drop (parent.length + 1))
  else if parent ++ [old] <+: path then none
  else t path

section Trees
variable {g : BpbGeometry} {d d' : Disk} {p : Nat} {name name' : ShortName} {q path : List ShortName}

theorem concat_ne_nil (q : List ShortName) (name : ShortName) : q ++ [name] ≠ [] :=
  List.append_ne_nil_of_right_ne_nil q (List.cons_ne_nil name [])

theorem concat_prefix_iff : q ++ [name] <+: path ↔ ∃ rest, path = q ++ name :: rest := by
  constructor
  · rintro ⟨rest, rfl⟩
    exact ⟨rest, by rw [List.append_assoc]; rfl⟩
  · rintro ⟨rest, rfl⟩
    exact ⟨rest, by rw [List.append_assoc]; rfl⟩

theorem tree_concat (hq : (naming g d).walk g.rootCluster q = some p) :
    tree g d (q ++ [name]) = ((naming g d).find p name).map Stored.node := by
  unfold tree
  rw [if_neg (concat_ne_nil q name), Naming.get_concat, hq]
  rfl

theorem walk_same (h : ∀ c name, Directory g d c → (naming g d').find c name = (naming g d).find c name) :
    (naming g d').walk g.rootCluster q = (naming g d).walk g.rootCluster q :=
  Naming.walk_congr rfl fun _ _ _ _ _ hwalk => h _ _ (walk_directory hwalk)

theorem tree_congr (h : ∀ c name, Directory g d c → (naming g d').find c name = (naming g d).find c name) :
    tree g d' = tree g d := by
  funext path
  unfold tree
  have hget : (naming g d').get g.rootCluster path = (naming g d).get g.rootCluster path := by
    refine Naming.get_congr rfl fun before k after m _ hwalk => h m k (walk_directory hwalk)
  rw [hget]

theorem tree_put {v : Option Stored} (hunique : (naming g d).Unique) (hq : (naming g d).walk g.rootCluster q = some p)
    (h : (naming g d).Sets (naming g d') p name v)
    (hold : ∀ e m, (naming g d).find p name = some e → e.child = some m → objectSlots g d m = [])
    (hnew : ∀ e m, v = some e → e.child = some m → objectSlots g d' m = []) :
    tree g d' = (tree g d).put (q ++ [name]) (v.map Stored.node) := by
  have hnothing : ∀ {d₀ : Disk} {m : Nat} {k : ShortName}, objectSlots g d₀ m = [] → (naming g d₀).find m k = none := by
    intro d₀ m k hempty
    rw [find_none_iff, hempty]
    exact fun s hs => absurd hs List.not_mem_nil
  have hget := h.get hunique hq (fun e m k he hm => hnothing (hold e m he hm)) (fun e m k he hm => hnothing (hnew e m he hm))
  funext path
  have hpath : (naming g d').get g.rootCluster path = _ := hget path
  unfold Tree.put
  by_cases hhere : path = q ++ [name]
  · have hnil : path ≠ [] := hhere ▸ concat_ne_nil q name
    rw [if_pos hhere] at hpath ⊢
    unfold tree
    rw [if_neg hnil, hpath]
  · rw [if_neg hhere] at hpath ⊢
    unfold tree
    rw [hpath]
    rfl

theorem tree_rename (hunique : (naming g d).Unique) (hq : (naming g d).walk g.rootCluster q = some p)
    (h : (naming g d).Renames (naming g d') p name name') :
    tree g d' = (tree g d).rename q name name' := by
  funext path
  have hlonger : ∀ (k : ShortName) (rest : List ShortName), q ++ k :: rest ≠ [] :=
    fun k rest => List.append_ne_nil_of_right_ne_nil q (List.cons_ne_nil k rest)
  unfold Tree.rename
  split_ifs with hnew hold
  · obtain ⟨rest, rfl⟩ := concat_prefix_iff.mp hnew
    have hget : (naming g d').get g.rootCluster (q ++ name' :: rest) = _ := h.get_new hunique hq rest
    have hdrop : (q ++ name' :: rest).drop (q.length + 1) = rest := by
      rw [← List.drop_drop, List.drop_left]
      rfl
    unfold tree
    rw [if_neg (hlonger _ _), hdrop, if_neg (hlonger _ _), hget]
    rfl
  · obtain ⟨rest, rfl⟩ := concat_prefix_iff.mp hold
    have hget : (naming g d').get g.rootCluster (q ++ name :: rest) = none := h.get_old hunique hq rest
    unfold tree
    rw [if_neg (hlonger _ _), hget]
    rfl
  · have hget : (naming g d').get g.rootCluster path = (naming g d).get g.rootCluster path :=
      h.get_other hunique hq (fun rest heq => hold (concat_prefix_iff.mpr ⟨rest, heq⟩))
        fun rest heq => hnew (concat_prefix_iff.mpr ⟨rest, heq⟩)
    unfold tree
    rw [hget]

end Trees

structure Shows (g : BpbGeometry) (d d' : Disk) : Prop where
  alike : ∀ c, Directory g d c → Alike g d d' c
  find : ∀ c name, Directory g d c → (naming g d').find c name = (naming g d).find c name

section Shown
variable {g : BpbGeometry} {n : Nat} (hg : g.Sound n) (hactive : g.activeFat = 0) {d d' d'' : Disk} {loose loose' : List Nat}
  (hd : Owned g d loose) {q : List ShortName}

theorem Shows.tree (h : Shows g d d') : tree g d' = tree g d := tree_congr h.find

theorem Shows.walk (h : Shows g d d') : (naming g d').walk g.rootCluster q = (naming g d).walk g.rootCluster q :=
  walk_same h.find

theorem Shows.trans (h : Shows g d d') (h' : Shows g d' d'') : Shows g d d'' where
  alike := fun c hc => (h.alike c hc).trans (h'.alike c ((directory_alike h.alike).mpr hc))
  find := fun c name hc => (h'.find c name ((directory_alike h.alike).mpr hc)).trans (h.find c name hc)

include hd

theorem Owned.shows_self : Shows g d d where
  alike := fun c hc => ⟨hd.directories c hc, rfl, fun _ _ => rfl⟩
  find := fun _ _ _ => rfl

include hg hactive

theorem Owned.shows (hd' : Owned g d' loose') (hkeeps : KeepsOwned g d d' loose) : Shows g d d' := by
  have halike : ∀ c, Directory g d c → Alike g d d' c := fun c hc => hd.keeps_alike hkeeps hc
  refine ⟨halike, fun c name hc => Option.ext fun v => ?_⟩
  obtain ⟨hslots, hentries⟩ := objectSlots_alike (halike c hc)
  have hstored : ∀ s ∈ objectSlots g d c, stored g d' (entryAt d' s) = stored g d (entryAt d s) := by
    intro s hs
    rw [hentries s hs]
    unfold stored
    split_ifs with hfile
    · exact Eq.refl _
    · obtain ⟨hzero, hchain⟩ := hd.files c s hc hs (Bool.eq_false_iff.mpr hfile)
      by_cases hfirst : firstCluster (entryAt d s) = 0
      · rw [hzero.mp hfirst, fileBytes_zero, fileBytes_zero]
      · obtain ⟨l, hl, -⟩ := hchain hfirst
        obtain ⟨hl', hdata⟩ := hd.keeps_chain hkeeps (.entry hc hs) hl
        rw [fileBytes_kept hg hactive hl hl' hdata]
  rw [hd'.find_iff ((directory_alike halike).mpr hc), hd.find_iff hc, hslots]
  constructor
  · rintro ⟨s, hs, hname, hv⟩
    rw [hentries s hs] at hname
    exact ⟨s, hs, hname, (hstored s hs).symm.trans hv⟩
  · rintro ⟨s, hs, hname, hv⟩
    refine ⟨s, hs, ?_, (hstored s hs).trans hv⟩
    rw [hentries s hs]
    exact hname

theorem Edited.find_same {p : Nat} {grow : List Nat} (hd' : Owned g d' loose') (h : Edited g d d' p none none grow) :
    ∀ c name, Directory g d c → (naming g d').find c name = (naming g d).find c name :=
  fun _ _ hc => h.find_other hg hactive hd hd' (fun _ hs => nomatch hs) (fun _ _ hs => nomatch hs) hc

end Shown

end Linux95.Fat32
