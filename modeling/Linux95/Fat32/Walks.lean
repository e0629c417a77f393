import Linux95.Fat32.ShortNames
import Linux95.Fat32.Volume

/-! `resolve_path` as a walk: the directories that the components name, then one lookup. A disk on which
these directories are found again answers by the last lookup alone. -/

namespace Linux95.Fat32
open Base Storage Write

/-- The components lead from the directory `c` to the one in which the last of them is looked up. -/
inductive Walks (g : BpbGeometry) (d : Disk) : Nat → List CString → Nat → ShortName → Prop
  | last {c : Nat} {component : CString} {name : ShortName} (encoded : encodeShortName component = some name) :
      Walks g d c [component] c name
  | step {c parent : Nat} {component next : CString} {rest : List CString} {name last : ShortName}
      {slot : DirectorySlot} {e : Entry} (encoded : encodeShortName component = some name)
      (found : value (findInDirectory g c name) d = .ok (.found slot e))
      (directory : isDirectoryEntry e = true) (valid : validCluster g (storedCluster e) = true)
      (tail : Walks g d (storedCluster e) (next :: rest) parent last) :
      Walks g d c (component :: next :: rest) parent last

def answered (c : Nat) (name : ShortName) : Search → ResolvedPath
  | .found slot entry => ⟨c, name, true, slot, entry⟩
  | .notFound _ _ => ⟨c, name, false, ⟨0, 0⟩, Entry.zero⟩

section Walks
variable {g : BpbGeometry} {d d' : Disk} {c parent : Nat} {name : ShortName} {ws : List CString}

theorem Walks.encoded (h : Walks g d c ws parent name) : ∃ text, encodeShortName text = some name := by
  induction h with
  | last encoded => exact ⟨_, encoded⟩
  | step _ _ _ _ _ ih => exact ih

theorem value_resolveFrom_iff (r : ResolvedPath) : value (resolveFrom g c ws) d = .ok r ↔
    ∃ parent name s, Walks g d c ws parent name ∧ value (findInDirectory g parent name) d = .ok s ∧
      r = answered parent name s := by
  induction ws generalizing c with
  | nil =>
    constructor
    · intro h
      cases h
    · rintro ⟨parent, name, s, hwalks, -⟩
      cases hwalks
  | cons component rest ih =>
    cases henc : encodeShortName component with
    | none =>
      constructor
      · intro h
        rw [resolveFrom, henc] at h
        cases h
      · rintro ⟨parent, name, s, hwalks, -⟩
        cases hwalks with
        | last encoded => rw [henc] at encoded; cases encoded
        | step encoded => rw [henc] at encoded; cases encoded
    | some name =>
      cases hfind : value (findInDirectory g c name) d with
      | error e =>
        rw [value_resolveFrom_error henc hfind]
        constructor
        · intro h
          cases h
        · rintro ⟨parent, name', s, hwalks, hs, -⟩
          cases hwalks with
          | last encoded =>
            obtain rfl := Option.some.inj (henc.symm.trans encoded)
            rw [hfind] at hs
            cases hs
          | step encoded found =>
            obtain rfl := Option.some.inj (henc.symm.trans encoded)
            rw [hfind] at found
            cases found
      | ok s =>
        cases rest with
        | nil =>
          have hvalue : value (resolveFrom g c [component]) d = .ok (answered c name s) := by
            cases s with
            | found slot e => rw [value_resolveFrom_found henc hfind, if_pos rfl]; rfl
            | notFound free tail => rw [value_resolveFrom_notFound henc hfind, if_pos rfl]; rfl
          rw [hvalue, Except.ok.injEq]
          constructor
          · rintro rfl
            exact ⟨c, name, s, .last henc, hfind, rfl⟩
          · rintro ⟨parent, name', s', hwalks, hs', rfl⟩
            cases hwalks with
            | last encoded =>
              obtain rfl := Option.some.inj (henc.symm.trans encoded)
              rw [hfind] at hs'
              rw [Except.ok.inj hs']
        | cons next rest =>
          cases s with
          | notFound free tail =>
            rw [value_resolveFrom_notFound henc hfind, if_neg (List.cons_ne_nil _ _)]
            constructor
            · intro h
              cases h
            · rintro ⟨parent, name', s, hwalks, -⟩
              cases hwalks with
              | step encoded found =>
                obtain rfl := Option.some.inj (henc.symm.trans encoded)
                rw [hfind] at found
                cases found
          | found slot e =>
            rw [value_resolveFrom_found henc hfind, if_neg (List.cons_ne_nil _ _)]
            constructor
            · intro h
              split_ifs at h with hdirectory hvalid
              obtain ⟨parent, name', s, hwalks, hs, hr⟩ := ih.mp h
              rw [Bool.not_eq_true', Bool.not_eq_false] at hdirectory hvalid
              exact ⟨parent, name', s, .step henc hfind hdirectory hvalid hwalks, hs, hr⟩
            · rintro ⟨parent, name', s, hwalks, hs, hr⟩
              cases hwalks with
              | step encoded found directory valid tail =>
                obtain rfl := Option.some.inj (henc.symm.trans encoded)
                rw [hfind] at found
                obtain ⟨rfl, rfl⟩ := Search.found.inj (Except.ok.inj found)
                rw [if_neg (by rw [directory]; decide), if_neg (by rw [valid]; decide)]
                exact ih.mpr ⟨parent, name', s, tail, hs, hr⟩

def KeepsDirectories (g : BpbGeometry) (d d' : Disk) : Prop :=
  ∀ c name slot, Directory g d c → (∃ text, encodeShortName text = some name) → lookup g d c name = some slot →
    isDirectoryEntry (entryAt d slot) = true →
    value (findInDirectory g c name) d' = .ok (.found slot (entryAt d slot))

theorem WellFormed.descend (hd : WellFormed g d) (hc : Directory g d c) {slot : DirectorySlot}
    (hname : ∃ text, encodeShortName text = some name) (hfind : lookup g d c name = some slot)
    (hdirectory : isDirectoryEntry (entryAt d slot) = true) : Directory g d (storedCluster (entryAt d slot)) := by
  obtain ⟨text, henc⟩ := hname
  have hmem := lookup_object henc hfind
  rw [(hd.encoded c slot hc hmem).2]
  exact .child hc hmem hdirectory

theorem Walks.kept {n : Nat} (hg : g.Sound n) (hd : WellFormed g d) (hkeep : KeepsDirectories g d d')
    (h : Walks g d c ws parent name) (hc : Directory g d c) :
    Walks g d' c ws parent name ∧ Directory g d parent := by
  induction h with
  | last encoded => exact ⟨.last encoded, hc⟩
  | step encoded found directory valid _ ih =>
    obtain ⟨l, hl⟩ := hd.directories _ hc
    obtain ⟨hfind, rfl⟩ := lookup_of_found hg hl found
    obtain ⟨htail, hparent⟩ := ih (hd.descend hc ⟨_, encoded⟩ hfind directory)
    exact ⟨.step encoded (hkeep _ _ _ hc ⟨_, encoded⟩ hfind directory) directory valid htail, hparent⟩

end Walks

def Leads (g : BpbGeometry) (d : Disk) (path : Option CString) (parent : Nat) (name : ShortName) : Prop :=
  ∃ text, path = some text ∧ validWritePath text = true ∧
    Walks g d g.rootCluster (splitSlash (writePathBody text)) parent name

section Leads
variable {g : BpbGeometry} {d d' : Disk} {path : Option CString} {parent : Nat} {name : ShortName}

theorem Leads.encoded (h : Leads g d path parent name) : ∃ text, encodeShortName text = some name := by
  obtain ⟨text, -, -, hwalks⟩ := h
  exact hwalks.encoded

theorem value_resolvePath_iff (hm : g.mirroringEnabled = true) (r : ResolvedPath) :
    value (resolvePath (some g) path) d = .ok r ↔
      ∃ parent name s, Leads g d path parent name ∧ value (findInDirectory g parent name) d = .ok s ∧
        r = answered parent name s := by
  cases path with
  | none =>
    constructor
    · exact fun h => nomatch h
    · rintro ⟨parent, name, s, ⟨text, htext, -⟩, -⟩
      cases htext
  | some text =>
    rw [resolvePath_checked, value_ite]
    split_ifs with hvalid
    · rw [geometryForWrite_bind, if_pos hm, value_resolveFrom_iff]
      constructor
      · rintro ⟨parent, name, s, hwalks, hs⟩
        exact ⟨parent, name, s, ⟨text, rfl, hvalid, hwalks⟩, hs⟩
      · rintro ⟨parent, name, s, ⟨_, htext, -, hwalks⟩, hs⟩
        obtain rfl := Option.some.inj htext
        exact ⟨parent, name, s, hwalks, hs⟩
    · constructor
      · exact fun h => nomatch h
      · rintro ⟨parent, name, s, ⟨_, htext, hvalid', -⟩, -⟩
        obtain rfl := Option.some.inj htext
        exact absurd hvalid' hvalid

theorem Leads.kept {n : Nat} (hg : g.Sound n) (hd : WellFormed g d) (hkeep : KeepsDirectories g d d')
    (h : Leads g d path parent name) : Leads g d' path parent name ∧ Directory g d parent := by
  obtain ⟨text, htext, hvalid, hwalks⟩ := h
  obtain ⟨hwalks', hparent⟩ := hwalks.kept hg hd hkeep .root
  exact ⟨⟨text, htext, hvalid, hwalks'⟩, hparent⟩

end Leads

end Linux95.Fat32
