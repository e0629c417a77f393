import Linux95.Gui.FileManagerDialogs

/-! What is selected after an operation that changes the directory. The reload keeps the old selection
by its name before the new name is looked up. -/

namespace Linux95.Gui.FileManager
open Storage Fat32

def UniqueNames (l : List Entry) : Prop := l.Pairwise fun a b => sameName a.name b.name = false

/-- The answers are those of a directory with the entries `l`, or failures. -/
def Serves (replies : Nat → Status × Entry × Bool) (l : List Entry) : Prop :=
  ∀ j, (replies j).1 = .ok →
    (∀ h : j < l.length, replies j = (.ok, l[j], false)) ∧ (l.length ≤ j → (replies j).2.2 = true)

/-- What a mutation of the directory `path` that took effect leaves true of its entries. -/
def TookEffect (path : CString) (l : List Entry) : VfsCall → Prop
  | .mkdir target | .touch target =>
    ∀ name, target = joinPath path name → ∃ e ∈ l, sameName name e.name = true
  | .remove target => ∀ name, target = joinPath path name → ∀ e ∈ l, sameName name e.name = false
  | .move source destination =>
    ∀ old new, source = joinPath path old → destination = joinPath path new → sameName old new = false →
      (∀ e ∈ l, sameName old e.name = false) ∧ ∃ e ∈ l, sameName new e.name = true
  | _ => True

/-- `name` is selected where it is shown, and nothing otherwise; what is removed or renamed next has
this name. -/
structure Follows (m : Model) (name : CString) : Prop where
  shown : ∀ e ∈ m.entries, sameName name e.name = true →
    (m.selectedIndex.bind fun i => m.entries[i]?) = some e
  hidden : (∀ e ∈ m.entries, sameName name e.name = false) → m.selectedIndex = none
  next : ∀ r new, ∀ call ∈ mutations (m.removeSelected r).calls ++ mutations (m.renameSelected r new).calls,
    ∃ e ∈ m.entries, sameName name e.name = true ∧
      (call = .remove (joinPath m.path e.name) ∨ ∃ destination, call = .move (joinPath m.path e.name) destination)

def NothingSelected (m : Model) : Prop :=
  m.selectedIndex = none ∧
    ∀ r new, mutations (m.removeSelected r).calls = [] ∧ mutations (m.renameSelected r new).calls = []

def SelectionFollows (m : Model) : Operation → Prop
  | .createFolder (some name) | .createFile (some name) | .renameSelected (some name) => Follows m name
  | .removeSelected => NothingSelected m
  | _ => True

def shownPart (l : List Entry) : List Entry := l.take maxEntries

/-- The entry selected in `m` is in the part of `l` that is shown. -/
def StillShown (m : Model) (l : List Entry) : Prop :=
  m.hasSelection = true ∧ ∃ e ∈ shownPart l, sameName m.selectedName e.name = true

/-- A new entry is shown, or no old selection stays in its place. -/
def CreationShown (m : Model) (l : List Entry) : Operation → Prop
  | .createFolder (some name) | .createFile (some name) =>
    (∃ e ∈ shownPart l, sameName name e.name = true) ∨ ¬ StillShown m l
  | _ => True

section Names

theorem sameName_iff : ∀ a b, sameName a b = true ↔ a.map foldAscii = b.map foldAscii
  | [], [] => by simp [sameName]
  | [], _ :: _ => by simp [sameName]
  | _ :: _, [] => by simp [sameName]
  | a :: left, b :: right => by
    unfold sameName
    rw [List.map_cons, List.map_cons, List.cons.injEq, ← sameName_iff left right]
    by_cases h : foldAscii a = foldAscii b
    · rw [if_neg (not_not.mpr h)]
      exact ⟨fun hrest => ⟨h, hrest⟩, fun hboth => hboth.2⟩
    · rw [if_pos h]
      exact ⟨fun hfalse => (nomatch hfalse), fun hboth => absurd hboth.1 h⟩

theorem sameName_refl (a : CString) : sameName a a = true := (sameName_iff a a).mpr rfl

theorem sameName_comm (a b : CString) : sameName a b = sameName b a := by
  apply Bool.eq_iff_iff.mpr
  rw [sameName_iff, sameName_iff]
  exact eq_comm

theorem sameName_congr {a b : CString} (h : sameName a b = true) : sameName a = sameName b := by
  funext c
  apply Bool.eq_iff_iff.mpr
  rw [sameName_iff, sameName_iff, (sameName_iff a b).mp h]

end Names

section Lookup
variable {entries : List Entry} {name : CString}

theorem findName_congr {a b : CString} (h : sameName a b = true) :
    Model.findName entries a = Model.findName entries b := by
  unfold Model.findName
  rw [sameName_congr h]

theorem findName_eq_none : Model.findName entries name = none ↔ ∀ e ∈ entries, sameName name e.name = false := by
  unfold Model.findName
  rw [List.findIdx?_eq_none_iff]

theorem findName_some {i : Nat} (h : Model.findName entries name = some i) :
    ∃ e, entries[i]? = some e ∧ e ∈ entries ∧ sameName name e.name = true := by
  unfold Model.findName at h
  obtain ⟨hi, hname, -⟩ := List.findIdx?_eq_some_iff_getElem.mp h
  exact ⟨entries[i], List.getElem?_eq_getElem hi, List.getElem_mem hi, hname⟩

theorem UniqueNames.eq (h : UniqueNames entries) {a b : Entry} (ha : a ∈ entries) (hb : b ∈ entries)
    (hname : sameName name a.name = true) (hname' : sameName name b.name = true) : a = b := by
  by_contra hne
  have hsymm : Std.Symm fun a b : Entry => sameName a.name b.name = false :=
    ⟨fun a b hab => by rw [sameName_comm]; exact hab⟩
  have hdiffer := List.Pairwise.forall h ha hb hne
  rw [← sameName_congr hname, hname'] at hdiffer
  cases hdiffer

theorem UniqueNames.found (h : UniqueNames entries) {e : Entry} (he : e ∈ entries)
    (hname : sameName name e.name = true) :
    ((Model.findName entries name).bind fun i => entries[i]?) = some e := by
  cases hfind : Model.findName entries name with
  | none =>
    rw [findName_eq_none.mp hfind e he] at hname
    cases hname
  | some i =>
    obtain ⟨e', hget, hmem, hname'⟩ := findName_some hfind
    rw [Option.bind_some, hget, h.eq hmem he hname' hname]

end Lookup

section Selecting
variable {m : Model} {r : Replies} {l : List Entry} {name : CString}

theorem copiedName_eq (m : Model) (entry : Entry) : m.copiedName entry = entry.name := by
  have hlt : entry.name.length < nameCapacity := Nat.lt_succ_of_le entry.fits.1
  unfold Model.copiedName copyBounded
  rw [if_pos hlt]
  rfl

def preserved (m : Model) (entries : List Entry) : Option Nat :=
  if m.hasSelection then Model.findName entries m.selectedName else none

theorem selectedIndex_replace (path : CString) (entries : List Entry) (truncated : Bool) :
    (m.replace path entries truncated).selectedIndex = preserved m entries := by
  have hpreserved : (if m.hasSelection = true then Model.findName entries m.selectedName else none) =
      preserved m entries := rfl
  unfold Model.replace
  dsimp only
  rw [hpreserved]
  cases hkept : preserved m entries with
  | none => rfl
  | some i =>
    have hfind : Model.findName entries m.selectedName = some i := by
      unfold preserved at hkept
      split_ifs at hkept
      exact hkept
    obtain ⟨e, hget, -, hname⟩ := findName_some hfind
    rw [Option.bind_some, hget]
    change (if true = true then Model.findName entries (m.copiedName e) else none) = some i
    rw [if_pos rfl, copiedName_eq, ← findName_congr hname, hfind]

theorem selectedIndex_selectName (m : Model) (name : CString) :
    (m.selectName name).selectedIndex = (Model.findName m.entries name).or m.selectedIndex := by
  have hfind : (m.entries.findIdx? fun entry => sameName entry.name name) = Model.findName m.entries name := by
    unfold Model.findName
    congr 1
    funext entry
    exact sameName_comm _ _
  unfold Model.selectName
  rw [hfind]
  cases hshown : Model.findName m.entries name with
  | none => rfl
  | some i =>
    obtain ⟨e, hget, -, hname⟩ := findName_some hshown
    have hselect : m.select i = { m with selectedName := m.copiedName e, hasSelection := true } := by
      unfold Model.select
      rw [hget]
    dsimp only
    rw [hselect]
    change (if true = true then Model.findName m.entries (m.copiedName e) else none) = some i
    rw [if_pos rfl, copiedName_eq, ← findName_congr hname, hshown]

theorem follows_iff (hunique : UniqueNames m.entries) :
    Follows m name ↔ m.selectedIndex = Model.findName m.entries name := by
  constructor
  · intro h
    cases hfind : Model.findName m.entries name with
    | none => exact h.hidden (findName_eq_none.mp hfind)
    | some i =>
      -- The entry selected has the name, so it is the one found.
      obtain ⟨e, -, hmem, hname⟩ := findName_some hfind
      obtain ⟨j, hj, hget⟩ := Option.bind_eq_some_iff.mp (h.shown e hmem hname)
      obtain ⟨e', hget', hsel⟩ := selectedIndex_spec hj
      obtain rfl : e' = e := Option.some.inj (hget'.symm.trans hget)
      have hsame : m.selectedIndex = Model.findName m.entries m.selectedName := by
        unfold Model.selectedIndex at hj ⊢
        split_ifs at hj ⊢
        rfl
      rw [hsame, findName_congr hsel, ← findName_congr hname, hfind]
  · intro h
    refine ⟨fun e he hname => ?_, fun hnone => ?_, ?_⟩
    · rw [h]
      exact hunique.found he hname
    · rw [h]
      exact findName_eq_none.mpr hnone
    · have hchosen : ∀ target, Chosen m target → ∃ e ∈ m.entries, sameName name e.name = true ∧
          target = joinPath m.path e.name := by
        rintro target ⟨i, entry, hi, hget, htarget⟩
        obtain ⟨e, hget', hmem, hname⟩ := findName_some (h ▸ hi)
        obtain rfl : e = entry := Option.some.inj (hget'.symm.trans hget)
        exact ⟨e, hmem, hname, buildChildPath_some htarget⟩
      intro r new call hcall
      rcases List.mem_append.mp hcall with hcall | hcall
      · rcases mutations_removeSelected (m := m) (r := r) with hnone | ⟨target, hcalls, htarget⟩
        · rw [hnone] at hcall
          cases hcall
        · rw [hcalls, List.mem_singleton] at hcall
          obtain ⟨e, hmem, hname, rfl⟩ := hchosen target htarget
          exact ⟨e, hmem, hname, Or.inl hcall⟩
      · rcases mutations_renameSelected (m := m) (r := r) new with hnone | ⟨source, destination, hcalls, hsource⟩
        · rw [hnone] at hcall
          cases hcall
        · rw [hcalls, List.mem_singleton] at hcall
          obtain ⟨e, hmem, hname, rfl⟩ := hchosen source hsource
          exact ⟨e, hmem, hname, Or.inr ⟨destination, hcall⟩⟩

theorem Serves.take_eq (h : Serves r.readdir l) {l' : List Entry} (h' : Lists r.readdir l') :
    l'.take maxEntries = shownPart l := by
  have hget : ∀ j (hj : j < l'.length), ∃ hj' : j < l.length, l[j] = l'[j] := by
    intro j hj
    have hreply := h'.1 j hj
    obtain ⟨hin, hend⟩ := h j (by rw [hreply])
    have hlt : j < l.length := by
      by_contra hge
      have hflag := hend (Nat.le_of_not_lt hge)
      rw [hreply] at hflag
      cases hflag
    have hagree := (hin hlt).symm.trans hreply
    exact ⟨hlt, by simpa using hagree⟩
  have hlen : l'.length ≤ l.length := by
    by_contra hgt
    obtain ⟨hlt, -⟩ := hget l.length (Nat.lt_of_not_le hgt)
    exact lt_irrefl _ hlt
  have hlength : min maxEntries l'.length = min maxEntries l.length := by
    rcases h'.2 with hmax | ⟨entry, hend⟩
    · omega
    · have hge : ¬ l'.length < l.length := by
        intro hlt
        have hreply := (h l'.length (by rw [hend])).1 hlt
        rw [hend] at hreply
        cases hreply
      omega
  unfold shownPart
  refine List.ext_getElem ?_ fun j hj hj' => ?_
  · rw [List.length_take, List.length_take, hlength]
  · rw [List.length_take] at hj hj'
    obtain ⟨_, heq⟩ := hget j (by omega)
    rw [List.getElem_take, List.getElem_take, heq]

theorem refresh_served (hserved : Serves r.readdir l) (hok : (m.refresh r).status = .ok) :
    ∃ truncated, (m.refresh r).model = m.replace m.path (shownPart l) truncated := by
  obtain ⟨-, -, -, ⟨hfailed, -⟩ | ⟨-, -, l', hl', hmodel, -⟩⟩ := loadPath_cases m r m.path
  · exact absurd hok hfailed
  · rw [hserved.take_eq hl'] at hmodel
    exact ⟨_, hmodel⟩

theorem mutate_selected (hserved : Serves r.readdir l) {call : VfsCall} {mutation : Status}
    {name : Option CString} (hok : (m.mutate r call mutation name).status = .ok) :
    call ∈ (m.mutate r call mutation name).calls ∧
    (m.mutate r call mutation name).model.entries = shownPart l ∧
    (m.mutate r call mutation name).model.selectedIndex =
      (name.bind (Model.findName (shownPart l))).or (preserved m (shownPart l)) := by
  unfold Model.mutate at hok ⊢
  by_cases hmutation : mutation = .ok
  swap
  · rw [if_pos hmutation] at hok
    exact absurd hok hmutation
  rw [if_neg (not_not.mpr hmutation)] at hok ⊢
  dsimp only at hok ⊢
  cases name with
  | none =>
    obtain ⟨truncated, hmodel⟩ := refresh_served hserved hok
    refine ⟨List.mem_cons_self, ?_, ?_⟩
    · rw [hmodel, (m.replace_fields _ _ _).2.1]
    · rw [hmodel, selectedIndex_replace]
      rfl
  | some name =>
    dsimp only at hok ⊢
    by_cases hrefreshed : (m.refresh r).status = .ok
    · obtain ⟨truncated, hmodel⟩ := refresh_served hserved hrefreshed
      rw [if_pos hrefreshed]
      refine ⟨List.mem_cons_self, ?_, ?_⟩
      · rw [(Model.selectName_fields _ _).2.1, hmodel, (m.replace_fields _ _ _).2.1]
      · rw [selectedIndex_selectName, hmodel, selectedIndex_replace, (m.replace_fields _ _ _).2.1]
        rfl
    · rw [if_neg hrefreshed] at hok
      exact absurd hok hrefreshed

theorem preserved_eq_none : preserved m (shownPart l) = none ↔ ¬ StillShown m l := by
  unfold preserved StillShown
  by_cases hsel : m.hasSelection = true
  · rw [if_pos hsel, findName_eq_none]
    constructor
    · rintro hnone ⟨-, e, he, hname⟩
      rw [hnone e he] at hname
      cases hname
    · intro hnot e he
      by_contra hname
      exact hnot ⟨hsel, e, he, Bool.eq_true_of_not_eq_false hname⟩
  · rw [if_neg hsel]
    exact ⟨fun _ h => hsel h.1, fun _ => rfl⟩

theorem UniqueNames.shownPart (h : UniqueNames l) : UniqueNames (shownPart l) :=
  h.sublist (List.take_sublist _ _)

theorem preserved_gone {i : Nat} {entry : Entry} (hi : m.selectedIndex = some i)
    (hget : m.entries[i]? = some entry) (hgone : ∀ e ∈ l, sameName entry.name e.name = false) :
    preserved m (shownPart l) = none := by
  obtain ⟨e', hget', hsel⟩ := selectedIndex_spec hi
  obtain rfl : e' = entry := Option.some.inj (hget'.symm.trans hget)
  rw [preserved_eq_none]
  rintro ⟨-, e, he, hname⟩
  rw [sameName_congr hsel, hgone e (List.mem_of_mem_take he)] at hname
  cases hname

theorem create_follows (hunique : UniqueNames l) {o : Outcome} (hentries : o.model.entries = shownPart l)
    (hsel : o.model.selectedIndex = (Model.findName (shownPart l) name).or (preserved m (shownPart l))) :
    Follows o.model name ↔ (∃ e ∈ shownPart l, sameName name e.name = true) ∨ ¬ StillShown m l := by
  have huniq : UniqueNames o.model.entries := by
    rw [hentries]
    exact hunique.shownPart
  rw [follows_iff huniq, hentries, hsel, ← preserved_eq_none]
  cases hfind : Model.findName (shownPart l) name with
  | none =>
    have hnone : ¬ ∃ e ∈ shownPart l, sameName name e.name = true := by
      rintro ⟨e, he, hname⟩
      rw [findName_eq_none.mp hfind e he] at hname
      cases hname
    rw [Option.none_or, or_iff_right hnone]
  | some i =>
    obtain ⟨e, -, hmem, hname⟩ := findName_some hfind
    exact ⟨fun _ => Or.inl ⟨e, hmem, hname⟩, fun _ => rfl⟩

end Selecting

section Operations
variable {m : Model} {r : Replies} {l : List Entry} {name : CString}

theorem nothingSelected (h : m.selectedIndex = none) : NothingSelected m := by
  refine ⟨h, fun r new => ⟨?_, ?_⟩⟩
  · unfold Model.removeSelected
    rw [h]
    rfl
  · unfold Model.renameSelected
    rw [h]
    rfl

end Operations

/-- After a change of the directory that succeeded, the selection follows the operation exactly where a
new entry is shown or leaves no old selection behind. -/
theorem selection_follows (run : List (Operation × Replies)) (op : Operation) (r : Replies) (l : List Entry)
    (hunique : UniqueNames l) (hserved : Serves r.readdir l)
    (heffect : ∀ call ∈ mutations ((runOperations run .initial).1.step r op).calls,
      TookEffect (runOperations run .initial).1.path l call)
    (hok : ((runOperations run .initial).1.step r op).status = .ok) :
    SelectionFollows ((runOperations run .initial).1.step r op).model op ↔
      CreationShown (runOperations run .initial).1 l op := by
  generalize (runOperations run .initial).1 = m at *
  cases op with
  | createFolder name =>
    cases name with
    | none => exact Iff.rfl
    | some name =>
      obtain ⟨destination, hmutate⟩ := createFolder_ok hok
      have hstep : m.step r (.createFolder (some name)) = m.mutate r (.mkdir destination) r.mkdir (some name) :=
        hmutate
      rw [hstep] at hok ⊢
      obtain ⟨-, hentries, hsel⟩ := mutate_selected hserved hok
      exact create_follows hunique hentries hsel
  | createFile name =>
    cases name with
    | none => exact Iff.rfl
    | some name =>
      obtain ⟨destination, hmutate⟩ := createFile_ok hok
      have hstep : m.step r (.createFile (some name)) =
          { m.mutate r (.touch destination) r.touch (some name) with
            calls := .stat destination :: (m.mutate r (.touch destination) r.touch (some name)).calls } := hmutate
      rw [hstep] at hok ⊢
      obtain ⟨-, hentries, hsel⟩ := mutate_selected hserved hok
      exact create_follows hunique hentries hsel
  | renameSelected name =>
    cases name with
    | none => exact Iff.rfl
    | some name =>
      obtain ⟨i, entry, hi, hget, hdiffer, hmutate⟩ := renameSelected_ok hok
      have hstep : m.step r (.renameSelected (some name)) =
        m.mutate r (.move (joinPath m.path entry.name) (joinPath m.path name)) r.move (some name) := hmutate
      rw [hstep] at hok heffect ⊢
      obtain ⟨hcall, hentries, hsel⟩ := mutate_selected hserved hok
      obtain ⟨hgone, -⟩ := heffect _ (mem_mutations hcall rfl) entry.name name rfl rfl hdiffer
      rw [preserved_gone hi hget hgone, Option.or_none, ← hentries] at hsel
      refine iff_of_true ((follows_iff ?_).mpr hsel) trivial
      rw [hentries]
      exact hunique.shownPart
  | removeSelected =>
    obtain ⟨i, entry, hi, hget, hmutate⟩ := removeSelected_ok hok
    have hstep : m.step r .removeSelected =
      m.mutate r (.remove (joinPath m.path entry.name)) r.remove none := hmutate
    rw [hstep] at hok heffect ⊢
    obtain ⟨hcall, -, hsel⟩ := mutate_selected hserved hok
    rw [preserved_gone hi hget (heffect _ (mem_mutations hcall rfl) entry.name rfl)] at hsel
    exact iff_of_true (nothingSelected hsel) trivial
  | _ => exact Iff.rfl

def answers (l : List Entry) (j : Nat) : Status × Entry × Bool :=
  match l[j]? with
  | some e => (.ok, e, false)
  | none => (.ok, ⟨[], false, 0, by decide⟩, true)

def faultless (l : List Entry) : Replies := ⟨(0, .ok), answers l, .ok, .notFound, .ok, .ok, .ok, .ok⟩

theorem serves_answers (l : List Entry) : Serves (answers l) l := by
  intro j _
  unfold answers
  refine ⟨fun hj => ?_, fun hj => ?_⟩
  · rw [List.getElem?_eq_getElem hj]
  · rw [List.getElem?_eq_none hj]

def letters (n : Nat) : List Entry :=
  ((List.finRange 8).take n).map fun i => ⟨[UInt8.ofNat (0x41 + i.val)], false, 0, by revert i; decide⟩

def lettersRun : List (Operation × Replies) := [(.loadRoot, faultless (letters 3)), (.select 1, faultless (letters 3))]

/-- A fourth file is created as `d`; the selection moves from `B` to it. -/
theorem selection_follows_letters :
    (runOperations lettersRun .initial).1.selectedIndex = some 1 ∧
    Follows ((runOperations lettersRun .initial).1.createFile (faultless (letters 4)) (some [0x64])).model [0x64] := by
  have hmutations : mutations
      ((runOperations lettersRun .initial).1.step (faultless (letters 4)) (.createFile (some [0x64]))).calls =
        [.touch [0x2F, 0x64]] := by decide +kernel
  have hnew : ∃ e ∈ letters 4, sameName [0x64] e.name = true := by decide +kernel
  refine ⟨by decide +kernel, (selection_follows lettersRun (.createFile (some [0x64])) (faultless (letters 4)) (letters 4)
    (by unfold UniqueNames; decide +kernel) (serves_answers _) ?_ (by decide +kernel)).mpr (Or.inl ?_)⟩
  · intro call hcall
    obtain rfl : call = .touch [0x2F, 0x64] := List.mem_singleton.mp (hmutations ▸ hcall)
    intro name hname
    have hpath : (runOperations lettersRun .initial).1.path = [0x2F] := by decide +kernel
    rw [hpath] at hname
    obtain rfl : name = [0x64] := (@List.append_cancel_left _ [0x2F] _ _ hname).symm
    exact hnew
  · obtain ⟨e, he, hname⟩ := hnew
    exact ⟨e, by rwa [shownPart, List.take_of_length_le (by decide +kernel)], hname⟩

def crowdedEntry (i : Nat) : Entry where
  name := [UInt8.ofNat (0x41 + i / 16 % 16), UInt8.ofNat (0x41 + i % 16)]
  isDirectory := false
  size := 0
  fits := by
    refine ⟨(by decide : 2 ≤ 12), fun hmem => ?_⟩
    have hne : ∀ k, k < 16 → (0 : UInt8) ≠ UInt8.ofNat (0x41 + k) := by decide
    rcases List.mem_cons.mp hmem with h | h
    · exact hne _ (Nat.mod_lt _ (by decide)) h
    · exact hne _ (Nat.mod_lt _ (by decide)) (List.mem_singleton.mp h)

def crowded : List Entry := (List.range 128).map crowdedEntry

def addedEntry : Entry := ⟨[0x4E, 0x45, 0x57], true, 0, by decide⟩

theorem sameName_crowded {i j : Nat} (h : sameName (crowdedEntry i).name (crowdedEntry j).name = true) :
    i / 16 % 16 = j / 16 % 16 ∧ i % 16 = j % 16 := by
  have hfold : ∀ a, a < 16 → ∀ b, b < 16 →
      foldAscii (UInt8.ofNat (0x41 + a)) = foldAscii (UInt8.ofNat (0x41 + b)) → a = b := by decide +kernel
  have hnames := (sameName_iff _ _).mp h
  simp only [crowdedEntry, List.map_cons, List.map_nil, List.cons.injEq, and_true] at hnames
  have hmod : ∀ k, k % 16 < 16 := fun k => Nat.mod_lt k (by decide)
  exact ⟨hfold _ (hmod _) _ (hmod _) hnames.1, hfold _ (hmod _) _ (hmod _) hnames.2⟩

theorem uniqueNames_crowded : UniqueNames (crowded ++ [addedEntry]) := by
  unfold UniqueNames crowded
  rw [List.pairwise_append]
  refine ⟨?_, List.pairwise_singleton _ _, fun e he e' he' => ?_⟩
  · refine List.pairwise_map.mpr (List.pairwise_lt_range.imp_of_mem fun {i j} hi hj hlt => ?_)
    rw [List.mem_range] at hi hj
    by_contra hsame
    have hparts := sameName_crowded (Bool.eq_true_of_not_eq_false hsame)
    omega
  · obtain ⟨i, -, rfl⟩ := List.mem_map.mp he
    rw [List.mem_singleton.mp he']
    by_contra hsame
    have hnames := congrArg List.length ((sameName_iff _ _).mp (Bool.eq_true_of_not_eq_false hsame))
    rw [List.length_map, List.length_map] at hnames
    exact absurd hnames (by decide : 2 ≠ 3)

def crowdedRun : List (Operation × Replies) :=
  [(.loadRoot, faultless crowded), (.select 0, faultless crowded)]

def crowdedModel (truncated : Bool) : Model := ⟨[0x2F], crowded, [0x41, 0x41], true, .icons, truncated⟩

theorem crowdedRun_model : (runOperations crowdedRun .initial).1 = crowdedModel false := by decide +kernel

theorem createFolder_crowded :
    ((crowdedModel false).createFolder (faultless (crowded ++ [addedEntry])) (some addedEntry.name)).status = .ok ∧
    ((crowdedModel false).createFolder (faultless (crowded ++ [addedEntry])) (some addedEntry.name)).model =
      crowdedModel true ∧
    mutations ((crowdedModel false).createFolder (faultless (crowded ++ [addedEntry]))
      (some addedEntry.name)).calls = [.mkdir [0x2F, 0x4E, 0x45, 0x57]] := by decide +kernel

/-- A folder beyond the 128 entries shown: the first entry stays selected and is what a removal hits. -/
theorem selection_stays :
    UniqueNames (crowded ++ [addedEntry]) ∧
    Serves (faultless (crowded ++ [addedEntry])).readdir (crowded ++ [addedEntry]) ∧
    validPathComponent addedEntry.name = true ∧
    (∀ call ∈ mutations ((runOperations crowdedRun .initial).1.createFolder
        (faultless (crowded ++ [addedEntry])) (some addedEntry.name)).calls,
      TookEffect (runOperations crowdedRun .initial).1.path (crowded ++ [addedEntry]) call) ∧
    ((runOperations crowdedRun .initial).1.createFolder (faultless (crowded ++ [addedEntry]))
      (some addedEntry.name)).status = .ok ∧
    ¬ Follows ((runOperations crowdedRun .initial).1.createFolder (faultless (crowded ++ [addedEntry]))
      (some addedEntry.name)).model addedEntry.name ∧
    mutations (((runOperations crowdedRun .initial).1.createFolder (faultless (crowded ++ [addedEntry]))
      (some addedEntry.name)).model.removeSelected (faultless [])).calls = [.remove [0x2F, 0x41, 0x41]] := by
  rw [crowdedRun_model]
  obtain ⟨hok, hmodel, hcalls⟩ := createFolder_crowded
  rw [hmodel]
  refine ⟨uniqueNames_crowded, serves_answers _, by decide, ?_, hok, ?_, by decide +kernel⟩
  · intro call hcall
    obtain rfl : call = .mkdir [0x2F, 0x4E, 0x45, 0x57] := List.mem_singleton.mp (hcalls ▸ hcall)
    intro name hname
    obtain rfl : name = addedEntry.name := (@List.append_cancel_left _ [0x2F] _ _ hname).symm
    exact ⟨addedEntry, List.mem_append_right _ (List.mem_singleton_self _), sameName_refl _⟩
  · intro h
    have hnone := h.hidden (by decide +kernel)
    revert hnone
    decide +kernel

end Linux95.Gui.FileManager
