import Linux95.Fat32.VolumeTree

/-! What the six operations are for, on a tree of names. -/

namespace Linux95.Fat32
open Base Storage Write

def names (path : Option CString) : Option (List ShortName) :=
  path.bind fun text => if validWritePath text then (splitSlash (writePathBody text)).mapM encodeShortName else none

/-- The path leads through directories; the last name need not exist. -/
def Tree.reach (t : Tree) (before : List ShortName) : List ShortName → Except Status (List ShortName)
  | [] => .error .invalidName
  | [name] => .ok (before ++ [name])
  | name :: rest =>
    match t (before ++ [name]) with
    | none => .error .notFound
    | some (.file _) => .error .notDirectory
    | some .directory => t.reach (before ++ [name]) rest

def Tree.resolve (t : Tree) (path : Option CString) : Except Status (List ShortName) :=
  match names path with
  | none => .error .invalidName
  | some ns => t.reach [] ns

def Tree.touch (t : Tree) (path : Option CString) : Except Status Tree := do
  let ns ← t.resolve path
  match t ns with
  | some .directory => throw .isDirectory
  | some (.file _) => pure t
  | none => pure (t.put ns (some (.file [])))

def Tree.writeFile (t : Tree) (path : Option CString) (data : Option Bytes) (size : Nat) : Except Status Tree :=
  if size > 0xFFFFFFFF then throw .unsupported
  else if size ≠ 0 ∧ data.isNone then throw .unsupported
  else do
    let ns ← t.resolve path
    match t ns with
    | some .directory => throw .isDirectory
    | _ => pure (t.put ns (some (.file ((List.range size).map (data.getD fun _ => 0)))))

def Tree.mkdir (t : Tree) (path : Option CString) : Except Status Tree := do
  let ns ← t.resolve path
  match t ns with
  | some _ => throw .alreadyExists
  | none => pure (t.put ns (some .directory))

def Tree.Occupied (t : Tree) (path : List ShortName) : Prop := ∃ name, t (path ++ [name]) ≠ none

open Classical in
noncomputable def Tree.remove (t : Tree) (path : Option CString) : Except Status Tree := do
  let ns ← t.resolve path
  match t ns with
  | none => throw .notFound
  | some (.file _) => pure (t.put ns none)
  | some .directory => if t.Occupied ns then throw .directoryNotEmpty else pure (t.put ns none)

def Tree.copyFile (t : Tree) (source destination : Option CString) : Except Status Tree := do
  let ns ← t.resolve source
  match t ns with
  | none => throw .notFound
  | some .directory => throw .isDirectory
  | some (.file contents) => do
    let nt ← t.resolve destination
    match t nt with
    | some _ => throw .alreadyExists
    | none => pure (t.put nt (some (.file contents)))

/-- A directory can only be given another name in the directory that it is in. -/
def Tree.move (t : Tree) (source destination : Option CString) : Except Status Tree := do
  let ns ← t.resolve source
  match t ns with
  | none => throw .notFound
  | some node => do
    let nt ← t.resolve destination
    match t nt, node with
    | some _, _ => throw .alreadyExists
    | none, .file contents => pure ((t.put ns none).put nt (some (.file contents)))
    | none, .directory =>
      if ns.dropLast ≠ nt.dropLast then throw .unsupported
      else pure (t.rename ns.dropLast (ns.getLastD fun _ => 0) (nt.getLastD fun _ => 0))

noncomputable def Tree.call (t : Tree) : Op → Except Status Tree
  | .touch path => t.touch path
  | .writeFile path data size => t.writeFile path data size
  | .mkdir path => t.mkdir path
  | .remove path => t.remove path
  | .copyFile source destination => t.copyFile source destination
  | .move source destination => t.move source destination

section Removal
variable {t : Tree} {path : Option CString} {ns : List ShortName} (hres : t.resolve path = .ok ns)
  (hdirectory : t ns = some .directory)
include hres hdirectory

theorem Tree.remove_empty (h : ¬ t.Occupied ns) : t.remove path = .ok (t.put ns none) := by
  unfold Tree.remove
  rw [hres, ok_bind, hdirectory]
  exact if_neg h

theorem Tree.remove_occupied (h : t.Occupied ns) : t.remove path = .error .directoryNotEmpty := by
  unfold Tree.remove
  rw [hres, ok_bind, hdirectory]
  exact if_pos h

end Removal

theorem Tree.move_unresolved {t : Tree} {source destination : Option CString} {ns : List ShortName} {node : Node} {e : Status}
    (hres : t.resolve source = .ok ns) (hnode : t ns = some node) (hres' : t.resolve destination = .error e) :
    t.move source destination = .error e := by
  unfold Tree.move
  rw [hres, ok_bind, hnode]
  dsimp only
  rw [hres']
  rfl

theorem Tree.move_existing {t : Tree} {source destination : Option CString} {ns nt : List ShortName} {node node' : Node}
    (hres : t.resolve source = .ok ns) (hnode : t ns = some node) (hres' : t.resolve destination = .ok nt)
    (hnode' : t nt = some node') : t.move source destination = .error .alreadyExists := by
  unfold Tree.move
  rw [hres, ok_bind, hnode]
  dsimp only
  rw [hres', ok_bind, hnode']
  rfl

section Moves
variable {t : Tree} {source destination : Option CString} {ns nt : List ShortName} (hres : t.resolve source = .ok ns)
  (hres' : t.resolve destination = .ok nt) (hmissing : t nt = none)
include hres hres' hmissing

theorem Tree.move_file {contents : List UInt8} (hfile : t ns = some (.file contents)) :
    t.move source destination = .ok ((t.put ns none).put nt (some (.file contents))) := by
  unfold Tree.move
  rw [hres, ok_bind, hfile]
  dsimp only
  rw [hres', ok_bind, hmissing]
  rfl

theorem Tree.move_directory (hdirectory : t ns = some .directory) : t.move source destination =
    if ns.dropLast ≠ nt.dropLast then .error .unsupported
    else .ok (t.rename ns.dropLast (ns.getLastD fun _ => 0) (nt.getLastD fun _ => 0)) := by
  unfold Tree.move
  rw [hres, ok_bind, hdirectory]
  dsimp only
  rw [hres', ok_bind, hmissing]
  rfl

end Moves

structure Located (g : BpbGeometry) (d : Disk) (ns : List ShortName) (r : ResolvedPath) : Prop where
  path : ∃ before, ns = before ++ [r.name] ∧ (naming g d).walk g.rootCluster before = some r.parentCluster
  encoded : ∃ text, encodeShortName text = some r.name
  found : r.existing = true → lookup g d r.parentCluster r.name = some r.slot ∧ r.entry = entryAt d r.slot
  missing : r.existing = false → lookup g d r.parentCluster r.name = none

section MapM
variable {α β : Type} {f : α → Option β} {xs : List α} {ys : List β}

theorem mapM_cons_some {x : α} (h : (x :: xs).mapM f = some ys) :
    ∃ y ys', f x = some y ∧ xs.mapM f = some ys' ∧ ys = y :: ys' := by
  rw [List.mapM_cons] at h
  obtain ⟨y, hy, hrest⟩ := Option.bind_eq_some_iff.mp h
  obtain ⟨ys', hys', hcons⟩ := Option.bind_eq_some_iff.mp hrest
  exact ⟨y, ys', hy, hys', (Option.some.inj hcons).symm⟩

theorem mapM_some (h : ∀ x ∈ xs, ∃ y, f x = some y) : ∃ ys, xs.mapM f = some ys := by
  induction xs with
  | nil => exact ⟨[], rfl⟩
  | cons x xs ih =>
    obtain ⟨y, hy⟩ := h x List.mem_cons_self
    obtain ⟨ys, hys⟩ := ih fun z hz => h z (List.mem_cons_of_mem x hz)
    refine ⟨y :: ys, ?_⟩
    rw [List.mapM_cons, hy, hys]
    rfl

end MapM

section Resolve
variable {g : BpbGeometry} {n : Nat} (hg : g.Sound n) {d : Disk} {loose : List Nat} (hd : Owned g d loose)
  {c p : Nat} {name : ShortName} {s : DirectorySlot} {q before ks ns : List ShortName} {ws : List CString}
  {r : ResolvedPath} {path : Option CString}
include hd

theorem Owned.find_lookup (hc : Directory g d c) {text : CString} (henc : encodeShortName text = some name) :
    (naming g d).find c name = (lookup g d c name).map fun s => stored g d (entryAt d s) := by
  refine Option.ext fun v => ?_
  rw [hd.find_iff hc, Option.map_eq_some_iff]
  constructor
  · rintro ⟨s, hs, hname, hv⟩
    exact ⟨s, (hd.lookup_iff hc henc).mpr ⟨hs, hname⟩, hv⟩
  · rintro ⟨s, hs, hv⟩
    obtain ⟨hmem, hname⟩ := (hd.lookup_iff hc henc).mp hs
    exact ⟨s, hmem, hname, hv⟩

theorem Owned.tree_lookup (hq : (naming g d).walk g.rootCluster q = some c) {text : CString}
    (henc : encodeShortName text = some name) :
    tree g d (q ++ [name]) = (lookup g d c name).map fun s => (stored g d (entryAt d s)).node := by
  rw [tree_concat hq, hd.find_lookup (walk_directory hq) henc, Option.map_map]
  rfl

theorem Located.tree (h : Located g d ns r) :
    tree g d ns = if r.existing then some (stored g d r.entry).node else none := by
  obtain ⟨before, rfl, hwalk⟩ := h.path
  obtain ⟨text, henc⟩ := h.encoded
  rw [hd.tree_lookup hwalk henc]
  split_ifs with hexists
  · obtain ⟨hslot, hentry⟩ := h.found hexists
    rw [hslot, hentry]
    rfl
  · rw [h.missing (Bool.eq_false_iff.mpr hexists)]
    rfl

include hg

theorem Owned.resolveFrom (hq : (naming g d).walk g.rootCluster before = some c)
    (hks : ws.mapM encodeShortName = some ks) :
    (∃ ns r, (Fat32.tree g d).reach before ks = .ok ns ∧ value (resolveFrom g c ws) d = .ok r ∧ Located g d ns r) ∨
      ∃ e, (Fat32.tree g d).reach before ks = .error e ∧ value (resolveFrom g c ws) d = .error e := by
  induction ws generalizing c before ks with
  | nil =>
    obtain rfl : [] = ks := Option.some.inj hks
    exact Or.inr ⟨.invalidName, rfl, rfl⟩
  | cons component rest ih =>
    obtain ⟨name, ks', henc, hks', rfl⟩ := mapM_cons_some hks
    have hc := walk_directory hq
    obtain ⟨l, hl⟩ := hd.directories c hc
    have htree := hd.tree_lookup hq henc
    rcases value_lookup hg hl name with ⟨slot, hslot, hfound⟩ | ⟨hmiss, free, tail, hnot, -⟩
    · rw [value_resolveFrom_found henc hfound]
      by_cases hlast : rest = []
      · subst hlast
        obtain rfl : [] = ks' := Option.some.inj hks'
        rw [if_pos rfl]
        exact Or.inl ⟨_, _, rfl, rfl, ⟨before, rfl, hq⟩, ⟨_, henc⟩, fun _ => ⟨hslot, rfl⟩, nofun⟩
      · rw [if_neg hlast]
        obtain ⟨next, rest', rfl⟩ := List.exists_cons_of_ne_nil hlast
        obtain ⟨k', ks'', -, -, rfl⟩ := mapM_cons_some hks'
        have hmem := lookup_object henc hslot
        rw [hslot] at htree
        unfold Tree.reach
        rw [htree, Option.map_some]
        unfold stored
        cases hdirectory : isDirectoryEntry (entryAt d slot) with
        | false =>
          rw [if_neg Bool.false_ne_true, if_pos (show (!false) = true from rfl)]
          exact Or.inr ⟨.notDirectory, rfl, rfl⟩
        | true =>
          have hstored := (hd.encoded c slot hc hmem).2
          have hchild : Directory g d (firstCluster (entryAt d slot)) := .child hc hmem hdirectory
          obtain ⟨l', hl'⟩ := hd.directories _ hchild
          have hvalid := hl'.valid _ hl'.head_mem
          rw [if_pos rfl, if_neg (by decide), hstored, if_neg (by rw [hvalid]; decide)]
          have hwalk : (naming g d).walk g.rootCluster (before ++ [name]) = some (firstCluster (entryAt d slot)) := by
            rw [Naming.walk_concat, hq, Option.bind_some, hd.find_lookup hc henc, hslot]
            exact stored_child.mpr ⟨hdirectory, rfl⟩
          exact ih hwalk hks'
    · rw [value_resolveFrom_notFound henc hnot]
      by_cases hlast : rest = []
      · subst hlast
        obtain rfl : [] = ks' := Option.some.inj hks'
        rw [if_pos rfl]
        exact Or.inl ⟨_, _, rfl, rfl, ⟨before, rfl, hq⟩, ⟨_, henc⟩, nofun, fun _ => hmiss⟩
      · rw [if_neg hlast]
        obtain ⟨next, rest', rfl⟩ := List.exists_cons_of_ne_nil hlast
        obtain ⟨k', ks'', -, -, rfl⟩ := mapM_cons_some hks'
        rw [hmiss] at htree
        unfold Tree.reach
        rw [htree]
        exact Or.inr ⟨.notFound, rfl, rfl⟩

/-- `resolve_path` answers what the tree says. -/
theorem Owned.resolve (hm : g.mirroringEnabled = true) (path : Option CString) :
    (∃ ns r, (Fat32.tree g d).resolve path = .ok ns ∧ value (resolvePath (some g) path) d = .ok r ∧ Located g d ns r) ∨
      ∃ e, (Fat32.tree g d).resolve path = .error e ∧ value (resolvePath (some g) path) d = .error e := by
  cases path with
  | none => exact Or.inr ⟨.invalidName, rfl, rfl⟩
  | some text =>
    rw [resolvePath_checked, value_ite]
    unfold Tree.resolve names
    rw [Option.bind_some]
    by_cases hvalid : validWritePath text = true
    · rw [if_pos hvalid, if_pos hvalid, geometryForWrite_bind, if_pos hm]
      obtain ⟨ks, hks⟩ : ∃ ks, (splitSlash (writePathBody text)).mapM encodeShortName = some ks := by
        obtain ⟨-, -, hall⟩ := (validWritePath_iff text).mp hvalid
        exact mapM_some hall
      rw [hks]
      exact hd.resolveFrom hg (show (naming g d).walk g.rootCluster [] = some g.rootCluster from rfl) hks
    · rw [if_neg hvalid, if_neg hvalid]
      exact Or.inr ⟨.invalidName, rfl, rfl⟩

end Resolve

end Linux95.Fat32
