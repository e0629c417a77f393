import Linux95.Fat32.VolumeRuns

/-! What `read_file` shows of a sound volume: the files of the tree of names. -/

namespace Linux95.Fat32
open Base Storage Write

/-- What `read_file` is for, on a tree of names. -/
def Tree.readFile (t : Tree) (path : Option CString) (offset size : Nat) : Except Status (List UInt8 × Nat) := do
  let ns ← t.resolve path
  match t ns with
  | none => throw .notFound
  | some .directory => throw .isDirectory
  | some (.file contents) => pure ((contents.drop offset).take size, contents.length)

section Trees
variable {t t' : Tree} {path path' : Option CString} {ns ks before : List ShortName} {contents : List UInt8}

theorem Tree.reach_ok (h : t.reach before ks = .ok ns) : ns = before ++ ks ∧
    ∀ front back, ks = front ++ back → front ≠ [] → back ≠ [] → t (before ++ front) = some .directory := by
  induction ks generalizing before with
  | nil => cases h
  | cons name rest ih =>
    cases rest with
    | nil =>
      obtain rfl := Except.ok.inj h
      refine ⟨rfl, fun front back hsplit hfront hback => ?_⟩
      obtain ⟨x, front, rfl⟩ := List.exists_cons_of_ne_nil hfront
      have hnil := (List.cons.inj hsplit).2
      exact absurd (List.append_eq_nil_iff.mp hnil.symm).2 hback
    | cons next rest =>
      unfold Tree.reach at h
      cases hnode : t (before ++ [name]) with
      | none =>
        rw [hnode] at h
        cases h
      | some node =>
        cases node with
        | file contents =>
          rw [hnode] at h
          cases h
        | directory =>
          rw [hnode] at h
          obtain ⟨rfl, hdirectories⟩ := ih h
          refine ⟨by rw [List.append_assoc, List.singleton_append], fun front back hsplit hfront hback => ?_⟩
          -- a front of one name is the directory passed here, a longer one ends further down
          obtain ⟨x, front, rfl⟩ := List.exists_cons_of_ne_nil hfront
          obtain ⟨rfl, hbelow⟩ := List.cons.inj hsplit
          by_cases hlast : front = []
          · rw [hlast, hnode]
          · have hdirectory := hdirectories front back hbelow hlast hback
            rwa [List.append_assoc, List.singleton_append] at hdirectory

theorem Tree.reach_congr (h : ∀ front back, ks = front ++ back → front ≠ [] → back ≠ [] → t' (before ++ front) = t (before ++ front)) :
    t'.reach before ks = t.reach before ks := by
  induction ks generalizing before with
  | nil => rfl
  | cons name rest ih =>
    cases rest with
    | nil => rfl
    | cons next rest =>
      unfold Tree.reach
      rw [h [name] (next :: rest) rfl (List.cons_ne_nil _ _) (List.cons_ne_nil _ _)]
      cases t (before ++ [name]) with
      | none => rfl
      | some node =>
        cases node with
        | file contents => rfl
        | directory =>
          refine ih fun front back hsplit hfront hback => ?_
          rw [List.append_assoc, List.singleton_append]
          exact h (name :: front) back (by rw [hsplit]; rfl) (List.cons_ne_nil _ _) hback

theorem Tree.resolve_ok (h : t.resolve path = .ok ns) : names path = some ns ∧
    ∀ front back, ns = front ++ back → front ≠ [] → back ≠ [] → t front = some .directory := by
  unfold Tree.resolve at h
  cases hnames : names path with
  | none =>
    rw [hnames] at h
    cases h
  | some ks =>
    rw [hnames] at h
    obtain ⟨rfl, hdirectories⟩ := Tree.reach_ok h
    exact ⟨rfl, hdirectories⟩

theorem Tree.resolve_put (hns : t ns ≠ some .directory) {ns' : List ShortName} (h : t.resolve path' = .ok ns') :
    (t.put ns (some (.file contents))).resolve path' = .ok ns' := by
  -- a file in the place of a file, or of nothing, is in nobody's way
  obtain ⟨hnames, hdirectories⟩ := Tree.resolve_ok h
  unfold Tree.resolve at h ⊢
  rw [hnames] at h ⊢
  rw [← h]
  -- the new file is not on the way: a path that is resolved passes directories only
  refine Tree.reach_congr fun front back hsplit hfront hback => if_neg ?_
  rintro rfl
  exact hns (hdirectories _ back hsplit hfront hback)

theorem Tree.writeFile_ok {data : Option Bytes} {size : Nat} (h : t.writeFile path data size = .ok t') :
    ∃ ns, t.resolve path = .ok ns ∧ t ns ≠ some .directory ∧
      t' = t.put ns (some (.file ((List.range size).map (data.getD fun _ => 0)))) := by
  unfold Tree.writeFile at h
  by_cases hlarge : size > 0xFFFFFFFF
  · rw [if_pos hlarge] at h
    cases h
  by_cases hnothing : size ≠ 0 ∧ data.isNone
  · rw [if_neg hlarge, if_pos hnothing] at h
    cases h
  rw [if_neg hlarge, if_neg hnothing] at h
  cases hres : t.resolve path with
  | error e =>
    rw [hres] at h
    cases h
  | ok ns =>
    rw [hres, ok_bind] at h
    refine ⟨ns, rfl, ?_⟩
    cases hnode : t ns with
    | none =>
      rw [hnode] at h
      exact ⟨nofun, (Except.ok.inj h).symm⟩
    | some node =>
      rw [hnode] at h
      cases node with
      | file contents => exact ⟨nofun, (Except.ok.inj h).symm⟩
      | directory => cases h

theorem Tree.readFile_file (hres : t.resolve path = .ok ns) (hfile : t ns = some (.file contents)) (offset size : Nat) :
    t.readFile path offset size = .ok ((contents.drop offset).take size, contents.length) := by
  unfold Tree.readFile
  rw [hres, ok_bind, hfile]
  rfl

theorem Tree.readFile_ok {offset size : Nat} {answer : List UInt8 × Nat} (h : t.readFile path offset size = .ok answer) :
    ∃ ns contents, t.resolve path = .ok ns ∧ t ns = some (.file contents) := by
  unfold Tree.readFile at h
  cases hres : t.resolve path with
  | error e =>
    rw [hres] at h
    cases h
  | ok ns =>
    rw [hres, ok_bind] at h
    cases hnode : t ns with
    | none =>
      rw [hnode] at h
      cases h
    | some node =>
      cases node with
      | file contents => exact ⟨ns, contents, rfl, hnode⟩
      | directory =>
        rw [hnode] at h
        cases h

end Trees

inductive Agreed : Except Status ResolvedPath → Except Status DirectoryEntry → Prop
  | found {r : ResolvedPath} {shown : CString} (existing : r.existing = true) :
      Agreed (.ok r) (.ok (decodedEntry r.entry shown))
  | missing {r : ResolvedPath} (missing : r.existing = false) : Agreed (.ok r) (.error .notFound)
  | refused {e : Status} : Agreed (.error e) (.error e)

section Lookups
variable {g : BpbGeometry} {n : Nat} (hg : g.Sound n) (hactive : g.activeFat = 0) {d : Disk} {loose : List Nat} {c : Nat}
  {text : CString} {name : ShortName}

section Plain
variable (hd : Owned g d loose)
include hd

theorem Owned.plainSlots (hc : Directory g d c) : PlainSlots d (directorySlots g d g.clusterCount c) := by
  intro slot hslot hlive
  cases hdot : isDotEntry (entryAt d slot) with
  | true =>
    unfold isDotEntry at hdot
    simp only [Bool.and_eq_true, decide_eq_true_eq] at hdot
    exact Or.inl hdot.1.2.1
  | false =>
    obtain ⟨text, henc⟩ := (hd.encoded c slot hc (mem_objectSlots.mpr ⟨hslot, hlive, hdot⟩)).1
    exact Or.inr (encodeShortName_plain henc).1

end Plain

include hg hactive

theorem value_walkClusters_chain {κ ρ : Type} (visit : DirectoryEntry → κ → κ ⊕ ρ) (atEnd : κ → ρ) {l : List Nat}
    (hl : Chain g d c l) : ∀ m k, l.length ≤ m → ∃ x, value (walkClusters g visit atEnd m c k) d = .ok x := by
  induction hl with
  | @last c h =>
    intro m k hm
    obtain ⟨m, rfl⟩ : ∃ i, m = i + 1 := ⟨m - 1, by rw [List.length_singleton] at hm; omega⟩
    rw [value_walkClusters hg _ _ _ hactive (link_valid h), h]
    cases visitSlots visit atEnd d (clusterSlots g c) k with
    | inr x => exact ⟨x, rfl⟩
    | inl k' => exact ⟨atEnd k', rfl⟩
  | @next c next rest h _ ih =>
    intro m k hm
    obtain ⟨m, rfl⟩ : ∃ i, m = i + 1 := ⟨m - 1, by rw [List.length_cons] at hm; omega⟩
    rw [value_walkClusters hg _ _ _ hactive (link_valid h), h]
    cases visitSlots visit atEnd d (clusterSlots g c) k with
    | inr x => exact ⟨x, rfl⟩
    | inl k' => exact ih m k' (by rw [List.length_cons] at hm; omega)

variable (hd : Owned g d loose)
include hd

theorem Owned.findEntry (hc : Directory g d c) (henc : encodeShortName text = some name) :
    (∃ slot shown, lookup g d c name = some slot ∧
      value (findEntry g c text) d = .ok (decodedEntry (entryAt d slot) shown)) ∨
    lookup g d c name = none ∧ value (findEntry g c text) d = .error .notFound := by
  obtain ⟨l, hl⟩ := hd.directories c hc
  obtain ⟨x, hwalk⟩ := value_walkClusters_chain hg hactive (findVisit text) (fun _ => none) hl g.clusterCount () hl.length_le
  -- a whole chain is not corrupt to the reader either
  have hread : value (Fat32.findEntry g c text) d ≠ .error .corrupt := by
    rw [value_findEntry hg, hwalk]
    cases x with
    | none => nofun
    | some entry => nofun
  have hplain := hd.plainSlots hc
  rcases value_lookup hg hl name with ⟨slot, hslot, hfound⟩ | ⟨hmiss, free, tail, hnot, -⟩
  · left
    have hwrite : value (findInDirectory g c name) d ≠ .error .corrupt := by
      rw [hfound]
      nofun
    rcases findInDirectory_findEntry hg hactive henc hplain hwrite hread with ⟨slot', entry, hfound', -, -, hentry, hdecode⟩ |
      ⟨free, tail, hnot, -⟩
    · obtain ⟨-, -, shown, -, rfl⟩ := decode_normal_iff.1 hdecode
      obtain ⟨rfl, -⟩ := Search.found.inj (Except.ok.inj (hfound.symm.trans hfound'))
      exact ⟨slot, shown, hslot, hentry⟩
    · exact nomatch hfound.symm.trans hnot
  · right
    have hwrite : value (findInDirectory g c name) d ≠ .error .corrupt := by
      rw [hnot]
      nofun
    rcases findInDirectory_findEntry hg hactive henc hplain hwrite hread with ⟨slot', entry, hfound', -⟩ | ⟨-, -, -, hentry⟩
    · exact nomatch hnot.symm.trans hfound'
    · exact ⟨hmiss, hentry⟩

theorem Owned.agreed : ∀ (ws : List CString) (c : Nat), ws ≠ [] → Directory g d c →
    (∀ w ∈ ws, ∃ name, encodeShortName w = some name ∧ w.length ≤ 12) →
    Agreed (value (Write.resolveFrom g c ws) d) (value (resolveComponents g c ws) d) := by
  intro ws
  induction ws with
  | nil => exact fun c h => absurd rfl h
  | cons w rest ih =>
    intro c _ hc hws
    obtain ⟨⟨name, henc, hlength⟩, hrest⟩ := List.forall_mem_cons.1 hws
    obtain ⟨l, hl⟩ := hd.directories c hc
    rcases hd.findEntry hg hactive hc henc with ⟨slot, shown, hslot, hentry⟩ | ⟨hmiss, hentry⟩
    · rw [value_resolveFrom_found henc (value_found hg hl hslot), value_resolveComponents_found hg hlength hentry]
      by_cases hlast : rest = []
      · rw [if_pos hlast, if_pos hlast]
        exact .found rfl
      rw [if_neg hlast, if_neg hlast, show (decodedEntry (entryAt d slot) shown).isDirectory = isDirectoryEntry (entryAt d slot) from rfl,
        show (decodedEntry (entryAt d slot) shown).firstCluster = storedCluster (entryAt d slot) from rfl]
      -- both go on in the directory: the reserved bits of its first cluster are zero
      cases hdirectory : isDirectoryEntry (entryAt d slot) with
      | false =>
        rw [if_pos (show (!false) = true from rfl), if_pos (show (!false) = true from rfl)]
        exact .refused
      | true =>
        have hmem := lookup_object henc hslot
        have hchild : Directory g d (firstCluster (entryAt d slot)) := .child hc hmem hdirectory
        obtain ⟨l', hl'⟩ := hd.directories _ hchild
        have hvalid := hl'.valid _ hl'.head_mem
        rw [(hd.encoded c slot hc hmem).2, hvalid]
        exact ih _ hlast hchild hrest
    · rcases value_lookup hg hl name with ⟨slot, hslot, -⟩ | ⟨-, free, tail, hnot, -⟩
      · rw [hmiss] at hslot
        cases hslot
      rw [value_resolveFrom_notFound henc hnot, value_resolveComponents_error hg hlength hentry]
      by_cases hlast : rest = []
      · rw [if_pos hlast]
        exact .missing rfl
      · rw [if_neg hlast]
        exact .refused

end Lookups

/-- On a sound volume both lookups answer a path alike. -/
theorem Owned.agreedPath {g : BpbGeometry} {n : Nat} (hg : g.Sound n) (hm : g.mirroringEnabled = true) {d : Disk}
    {loose : List Nat} (hd : Owned g d loose) {path : CString} (hlength : (path.takeWhile (· ≠ 0)).length ≤ 127) :
    Agreed (value (resolvePath (some g) (some path)) d) (value (resolveEntry (some g) (some path)) d) := by
  rcases value_resolve_cases hm d hlength with ⟨hw, hr⟩ | ⟨hws, hw, hr⟩
  · rw [hw, hr]
    exact .refused
  · rw [hw, hr]
    exact hd.agreed hg (hg.mirrored hm) _ _ (splitSlash_ne_nil _) .root hws

theorem Stands.fileChain {g : BpbGeometry} {n : Nat} (hg : g.Sound n) (hactive : g.activeFat = 0) {d : Disk} {e : Entry}
    {held : List Nat} (h : Stands g d e held) (hfile : isDirectoryEntry e = false) :
    FileChain g d (firstCluster e) (le32 e.byte 28) held ∧
      fileBytes g d (firstCluster e) (le32 e.byte 28) = (chainBytes g d held).take (le32 e.byte 28) := by
  obtain ⟨hzero, hlength⟩ := h.file hfile
  rcases h.holds with ⟨hfirst, rfl⟩ | hl
  · have hsize := hzero.mp hfirst
    rw [hsize]
    exact ⟨⟨Or.inl ⟨rfl, rfl⟩, ((fileClusters_zero_iff hg).mpr rfl).symm⟩, rfl⟩
  · have hfirst : firstCluster e ≠ 0 := by
      have hlow := (validCluster_iff.mp (hl.valid _ hl.head_mem)).1
      omega
    refine ⟨⟨Or.inr ?_, hlength hfirst⟩, fileBytes_chain hg hactive hl⟩
    rw [show activeNext g d = link g d from funext (activeNext_eq hactive d)]
    exact hl

section Answers
variable {g : BpbGeometry} {n : Nat} (hg : g.Sound n) {d : Disk} {path : Option CString} (offset size : Nat)
include hg

theorem value_readFile_error {e : Status} (h : value (resolveEntry (some g) path) d = .error e) :
    value (readFile (some g) path offset true size) d = .error e := by
  unfold readFile
  dsimp only
  rw [if_neg (by decide), value_bind_error (reads_resolveEntry hg path) h]

theorem value_readFile_directory {entry : DirectoryEntry} (h : value (resolveEntry (some g) path) d = .ok entry)
    (hdirectory : entry.isDirectory = true) : value (readFile (some g) path offset true size) d = .error .isDirectory := by
  unfold readFile
  dsimp only
  rw [if_neg (by decide), value_bind_ok (reads_resolveEntry hg path) h, if_pos hdirectory]
  rfl

end Answers

section Readers
variable {g : BpbGeometry} {n : Nat} (hg : g.Sound n) (hm : g.mirroringEnabled = true) {dev : Device}
  (hready : dev.Ready g.totalSectors) (hd : Owned g dev.sectors []) {path : CString}
  (hlength : (path.takeWhile (· ≠ 0)).length ≤ 127)
include hg hm hready hd hlength

/-- `read_file` shows the tree. -/
theorem Owned.readFile (offset size : Nat) : ((Fat32.readFile (some g) (some path) offset true size).exec dev).1 =
    (Fat32.tree g dev.sectors).readFile (some path) offset size := by
  have hactive := hg.mirrored hm
  have hexec {answer : Except Status (List UInt8 × Nat)}
      (h : value (Fat32.readFile (some g) (some path) offset true size) dev.sectors = answer) :
      ((Fat32.readFile (some g) (some path) offset true size).exec dev).1 = answer :=
    ((Does.of_value (reads_readFile hg (some path) offset true size) h).exec hready rfl).1
  have hagreed := hd.agreedPath hg hm hlength
  unfold Tree.readFile
  generalize hanswer : value (resolveEntry (some g) (some path)) dev.sectors = answer at hagreed
  rcases hd.resolve hg hm (some path) with ⟨ns, r, hres, hvalue, hloc⟩ | ⟨e, hres, hvalue⟩
  · rw [hvalue] at hagreed
    rw [hres, ok_bind, hloc.tree hd]
    cases hagreed with
    | missing hmissing =>
      rw [hmissing, if_neg Bool.false_ne_true]
      exact hexec (value_readFile_error hg offset size hanswer)
    | @found _ shown hexists =>
      rw [hexists, if_pos rfl]
      cases hdirectory : isDirectoryEntry r.entry with
      | true =>
        rw [stored, if_pos hdirectory]
        exact hexec (value_readFile_directory hg offset size hanswer hdirectory)
      | false =>
        obtain ⟨held, hstands, -⟩ := hloc.stands hd hexists
        obtain ⟨hchain, hbytes⟩ := hstands.fileChain hg hactive hdirectory
        obtain ⟨bytes, hread, hcount, hslice⟩ := exec_readFile hg hready hanswer hdirectory offset size
          (show FileChain g dev.sectors (storedCluster r.entry) _ held from hstands.encoded.2 ▸ hchain)
        -- the last cluster may go on past the end of the file, so the bytes are cut off at its size
        have hcontents : ((fileBytes g dev.sectors (firstCluster r.entry) (le32 r.entry.byte 28)).drop offset).take size = bytes := by
          rw [hbytes, List.drop_take, List.take_take, ← show bytes.length = min size (le32 r.entry.byte 28 - offset) from hcount]
          exact hslice.symm
        rw [stored_file hdirectory rfl rfl, hread, ← hcontents]
        refine congrArg (fun size => Except.ok (_, size)) ?_
        exact (length_fileBytes hg hactive hstands.holds hchain.2).symm
  · rw [hvalue] at hagreed
    cases hagreed
    rw [hres]
    exact hexec (value_readFile_error hg offset size hanswer)

end Readers

theorem Outcome.of_ok {g : BpbGeometry} {d d' : Disk} {op : Op} {r : Except Status Unit} (h : Outcome g d d' op r)
    (hok : r = .ok ()) : (tree g d).call op = .ok (tree g d') := by
  cases h with
  | done answer => exact answer
  | refused answer same => cases hok
  | full answer same short => cases hok
  | hidden answer found used kept same => cases hok

/-- **The reader shows the tree.** After any run of operations on a sound volume, on a drive that answers every
request, `read_file` answers every path as the tree of names does: with the bytes that are asked for, or with
the error of that path. -/
theorem read_shows_tree (sector : Sector) (diskSectors : Nat) (g : BpbGeometry)
    (hparse : parseBpb sector diskSectors = some g) (hm : g.mirroringEnabled = true) (dev : Device)
    (hready : dev.Ready g.totalSectors) (hd : WellFormed g dev.sectors) (ops : List Op) (path : CString)
    (hlength : (path.takeWhile (· ≠ 0)).length ≤ 127) (offset size : Nat) :
    ((readFile (some g) (some path) offset true size).exec (runOps (some g) ops dev)).1 =
      (tree g (runOps (some g) ops dev).sectors).readFile (some path) offset size := by
  have hg := parseBpb_sound hparse
  obtain ⟨hready', hd'⟩ := run_sound hg hm ops hready (wellFormed_iff.mp hd)
  exact hd'.readFile hg hm hready' hlength offset size

/-- `/A` is read after it was written over. -/
theorem read_shows_tree_small :
    ((readFile (some smallGeometry) (some [0x2F, 0x41]) 5 true 100).exec
      (runOps (some smallGeometry) [.writeFile (some [0x2F, 0x41]) (some fun _ => 7) 600] readyTree)).1 =
    (tree smallGeometry (runOps (some smallGeometry) [.writeFile (some [0x2F, 0x41]) (some fun _ => 7) 600] readyTree).sectors).readFile
      (some [0x2F, 0x41]) 5 100 :=
  read_shows_tree smallBoot 66586 smallGeometry parseBpb_smallBoot rfl readyTree readyTree_ready wellFormed_treeDisk _ _ (by decide) 5 100

/-- **What is written is read.** When `write_file` succeeds, in whatever state a run of operations has left the
volume, `read_file` gives back the data, and every other file that could be read is read as before. -/
theorem written_is_read (sector : Sector) (diskSectors : Nat) (g : BpbGeometry)
    (hparse : parseBpb sector diskSectors = some g) (hm : g.mirroringEnabled = true) (dev : Device)
    (hready : dev.Ready g.totalSectors) (hd : WellFormed g dev.sectors) (ops : List Op) (path : CString)
    (hlength : (path.takeWhile (· ≠ 0)).length ≤ 127) (data : Option Bytes) (size : Nat)
    (hok : ((Write.writeFile (some g) (some path) data size).exec (runOps (some g) ops dev)).1 = .ok ()) :
    (∀ offset count, ((readFile (some g) (some path) offset true count).exec
        (Op.after (some g) (.writeFile (some path) data size) (runOps (some g) ops dev))).1 =
      .ok ((((List.range size).map (data.getD fun _ => 0)).drop offset).take count, size)) ∧
    ∀ path', (path'.takeWhile (· ≠ 0)).length ≤ 127 → names (some path') ≠ names (some path) → ∀ offset count answer,
      ((readFile (some g) (some path') offset true count).exec (runOps (some g) ops dev)).1 = .ok answer →
      ((readFile (some g) (some path') offset true count).exec
        (Op.after (some g) (.writeFile (some path) data size) (runOps (some g) ops dev))).1 = .ok answer := by
  have hg := parseBpb_sound hparse
  obtain ⟨hready₁, hd₁⟩ := run_sound hg hm ops hready (wellFormed_iff.mp hd)
  obtain ⟨hready₂, hd₂, houtcome⟩ := step_sound hg hm hready₁ hd₁ (.writeFile (some path) data size)
  have hwritten := houtcome.of_ok hok
  obtain ⟨ns, hres, hns, hput⟩ := Tree.writeFile_ok hwritten
  refine ⟨fun offset count => ?_, fun path' hlength' hother offset count answer hread => ?_⟩
  · rw [hd₂.readFile hg hm hready₂ hlength, hput, Tree.readFile_file (Tree.resolve_put hns hres) (if_pos rfl),
      List.length_map, List.length_range]
  · rw [hd₁.readFile hg hm hready₁ hlength'] at hread
    obtain ⟨ns', contents, hres', hfile⟩ := Tree.readFile_ok hread
    have hne : ns' ≠ ns := by
      rintro rfl
      exact hother ((Tree.resolve_ok hres').1.trans (Tree.resolve_ok hres).1.symm)
    rw [hd₂.readFile hg hm hready₂ hlength', hput,
      Tree.readFile_file (Tree.resolve_put hns hres') ((if_neg hne).trans hfile), ← hread, Tree.readFile_file hres' hfile]

/-- `/A` is written over; `/D` is no file, so nothing else is read. -/
theorem written_is_read_small :
    ((readFile (some smallGeometry) (some [0x2F, 0x41]) 5 true 100).exec
      (Op.after (some smallGeometry) (.writeFile (some [0x2F, 0x41]) (some fun _ => 7) 600) readyTree)).1 =
      .ok ((((List.range 600).map fun _ => 7).drop 5).take 100, 600) :=
  (written_is_read smallBoot 66586 smallGeometry parseBpb_smallBoot rfl readyTree readyTree_ready wellFormed_treeDisk []
    [0x2F, 0x41] (by decide) (some fun _ => 7) 600 (by decide +kernel)).1 5 100

end Linux95.Fat32
