import Mathlib.Data.List.Basic
import Linux95.Gui.FileManagerModel

/-! Runs of the file manager's model, for any answers of the VFS. -/

namespace Linux95.Gui.FileManager
open Storage Fat32

def pathText (names : List CString) : CString :=
  if names = [] then [0x2F] else names.flatMap fun name => 0x2F :: name

/-- `/`, or valid names joined by single slashes, in less than 128 bytes. -/
def ShownPath (path : CString) : Prop :=
  ∃ names, (∀ name ∈ names, validPathComponent name = true) ∧ path = pathText names ∧
    path.length < pathCapacity

/-- The answers list the entries `l`: up to the end, or past what the model takes. -/
def Lists (replies : Nat → Status × Entry × Bool) (l : List Entry) : Prop :=
  (∀ j (h : j < l.length), replies j = (.ok, l[j], false)) ∧
    (maxEntries < l.length ∨ ∃ entry, replies l.length = (.ok, entry, true))

/-- Every handle that `opendir` gives is closed once, before the next one is opened; the first
argument is the handle that is open. -/
def closes : Option Int → List VfsCall → Prop
  | held, [] => held = none
  | held, .opendir _ handle status :: rest =>
    held = none ∧ closes (if status = .ok ∧ 0 ≤ handle then some handle else none) rest
  | held, .readdir handle :: rest => held = some handle ∧ closes held rest
  | held, .closedir handle :: rest => held = some handle ∧ closes none rest
  | held, _ :: rest => closes held rest

def VfsCall.isMutation : VfsCall → Bool
  | .mkdir _ | .touch _ | .move _ _ | .remove _ => true
  | _ => false

def VfsCall.isOpendir : VfsCall → Bool
  | .opendir _ _ _ => true
  | _ => false

section Paths

theorem validComponentLoop_slash : ∀ cs b e seen, validComponentLoop cs b e seen = true →
    ∀ c ∈ cs, c ≠ 0x2F
  | [], _, _, _, _ => fun c hc => (nomatch hc)
  | c :: cs, b, e, seen, h => by
    have hrest : (∃ b e seen, validComponentLoop cs b e seen = true) ∧ c ≠ 0x2F := by
      unfold validComponentLoop at h
      split_ifs at h with h1 h2 h3 h4 h5 h6 h7
      all_goals
        refine ⟨⟨_, _, _, h⟩, ?_⟩
        rintro rfl
        exact h1 (by decide)
    obtain ⟨⟨b', e', seen', hloop⟩, hc⟩ := hrest
    exact List.forall_mem_cons.mpr ⟨hc, validComponentLoop_slash cs b' e' seen' hloop⟩

theorem validPathComponent_text {name : CString} (h : validPathComponent name = true) :
    name ≠ [] ∧ ∀ c ∈ name, c ≠ 0x2F := by
  unfold validPathComponent at h
  split_ifs at h with h1 h2
  refine ⟨?_, validComponentLoop_slash _ _ _ _ h⟩
  rintro rfl
  exact h1 rfl

theorem pathText_snoc (names : List CString) (name : CString) :
    pathText (names ++ [name]) = (names.flatMap fun name => 0x2F :: name) ++ 0x2F :: name := by
  unfold pathText
  rw [if_neg (by simp), List.flatMap_append]
  simp

theorem isRoot_pathText {names : List CString} (h : ∀ name ∈ names, validPathComponent name = true) :
    isRoot (pathText names) = true ↔ names = [] := by
  cases names with
  | nil => exact ⟨fun _ => rfl, fun _ => rfl⟩
  | cons name names =>
    refine ⟨fun hroot => ?_, fun hnil => (nomatch hnil)⟩
    have hne := (validPathComponent_text (h name List.mem_cons_self)).1
    unfold isRoot pathText at hroot
    rw [if_neg (List.cons_ne_nil _ _), List.flatMap_cons] at hroot
    simp only [List.cons_append, List.length_cons, List.length_append, Bool.and_eq_true,
      decide_eq_true_eq] at hroot
    have := List.length_pos_of_ne_nil hne
    omega

theorem joinPath_pathText {names : List CString} (name : CString)
    (h : ∀ name ∈ names, validPathComponent name = true) :
    joinPath (pathText names) name = pathText (names ++ [name]) := by
  rw [pathText_snoc]
  unfold joinPath
  by_cases hnil : names = []
  · rw [if_pos ((isRoot_pathText h).mpr hnil), hnil]
    rfl
  · rw [if_neg (mt (isRoot_pathText h).mp hnil)]
    unfold pathText
    rw [if_neg hnil, List.append_assoc]
    rfl

theorem parentLength_eq (q name : CString) (h : ∀ c ∈ name, c ≠ 0x2F) : ∀ k, k ≤ name.length →
    Model.parentLength (q ++ 0x2F :: name) (q.length + 1 + k) = q.length + 1
  | 0, _ => by
    rw [Nat.add_zero, Model.parentLength, if_neg]
    rintro ⟨-, hne⟩
    exact hne (by simp)
  | k + 1, hk => by
    have hget : (q ++ 0x2F :: name).getD (q.length + 1 + k) 0 = name[k] := by
      rw [List.getD_eq_getElem?_getD, List.getElem?_append_right (by omega),
        show q.length + 1 + k - q.length = k + 1 by omega, List.getElem?_cons_succ,
        List.getElem?_eq_getElem hk, Option.getD_some]
    have hslash : (q ++ 0x2F :: name).getD (q.length + 1 + k) 0 ≠ 0x2F := by
      rw [hget]
      exact h _ (List.getElem_mem hk)
    rw [← Nat.add_assoc, Model.parentLength, if_pos ⟨by omega, hslash⟩]
    exact parentLength_eq q name h k (by omega)

theorem parentPath_snoc (names : List CString) {name : CString}
    (h : validPathComponent name = true) :
    Model.parentPath (pathText (names ++ [name])) = pathText names := by
  have hlen := parentLength_eq (names.flatMap fun name => 0x2F :: name) name
    (validPathComponent_text h).2 name.length (le_refl _)
  rw [pathText_snoc]
  unfold Model.parentPath pathText
  rw [List.length_append, List.length_cons, show ∀ a b : Nat, a + (b + 1) = a + 1 + b by omega, hlen]
  by_cases hnil : names = []
  · rw [hnil]
    rfl
  · have hpos : 0 < (names.flatMap fun name => 0x2F :: name).length := by
      obtain ⟨first, rest, rfl⟩ := List.exists_cons_of_ne_nil hnil
      rw [List.flatMap_cons, List.length_append, List.length_cons]
      omega
    dsimp only
    rw [if_pos (by omega), if_neg hnil, Nat.add_sub_cancel, List.take_left]

theorem ShownPath.join {path name : CString} (h : ShownPath path)
    (hname : validPathComponent name = true) (hlen : (joinPath path name).length < pathCapacity) :
    ShownPath (joinPath path name) := by
  obtain ⟨names, hvalid, rfl, -⟩ := h
  refine ⟨names ++ [name], ?_, joinPath_pathText name hvalid, hlen⟩
  intro n hn
  rcases List.mem_append.mp hn with hn | hn
  · exact hvalid n hn
  · rw [List.mem_singleton.mp hn]
    exact hname

theorem length_parentPath_le (path : CString) : (Model.parentPath path).length ≤ path.length := by
  unfold Model.parentPath
  dsimp only
  split_ifs <;> rw [List.length_take] <;> omega

theorem ShownPath.parent {path : CString} (h : ShownPath path) : ShownPath (Model.parentPath path) := by
  have hle := length_parentPath_le path
  obtain ⟨names, hvalid, rfl, hlen⟩ := h
  rcases List.eq_nil_or_concat names with rfl | ⟨names, name, rfl⟩
  · exact ⟨[], hvalid, rfl, by decide⟩
  · rw [List.concat_eq_append] at *
    have hparent := parentPath_snoc names (hvalid name (by simp))
    refine ⟨names, fun n hn => hvalid n (by simp [hn]), hparent, by omega⟩

theorem parentPath_join {path name : CString} (h : ShownPath path)
    (hname : validPathComponent name = true) : Model.parentPath (joinPath path name) = path := by
  obtain ⟨names, hvalid, rfl, -⟩ := h
  rw [joinPath_pathText name hvalid, parentPath_snoc names hname]

end Paths

section Listing
variable {replies : Nat → Status × Entry × Bool}

theorem readEntries_spec (replies : Nat → Status × Entry × Bool) : ∀ n i seen, ∃ l : List Entry,
    (∀ j (h : j < l.length), replies (i + j) = (.ok, l[j], false)) ∧
    (Model.readEntries replies n i seen).entries = seen ++ l ∧
    ((Model.readEntries replies n i seen).status = .ok →
      ((Model.readEntries replies n i seen).reachedEnd = true ∧ l.length < n ∧
        (Model.readEntries replies n i seen).reads = i + l.length + 1 ∧
        ∃ entry, replies (i + l.length) = (.ok, entry, true)) ∨
      ((Model.readEntries replies n i seen).reachedEnd = false ∧ l.length = n ∧
        (Model.readEntries replies n i seen).reads = i + n))
  | 0, i, seen => ⟨[], fun j h => (nomatch h), (List.append_nil seen).symm, fun _ => Or.inr ⟨rfl, rfl, rfl⟩⟩
  | n + 1, i, seen => by
    rw [Model.readEntries]
    rcases hreply : replies i with ⟨status, next, atEnd⟩
    dsimp only
    by_cases hok : status = .ok
    swap
    · rw [if_pos hok]
      exact ⟨[], fun j h => (nomatch h), (List.append_nil seen).symm, fun h => absurd h hok⟩
    rw [if_neg (not_not.mpr hok)]
    subst hok
    cases atEnd with
    | true =>
      exact ⟨[], fun j h => (nomatch h), (List.append_nil seen).symm,
        fun _ => Or.inl ⟨rfl, Nat.succ_pos n, rfl, next, hreply⟩⟩
    | false =>
      obtain ⟨l, hl, hentries, hdone⟩ := readEntries_spec replies n (i + 1) (seen ++ [next])
      refine ⟨next :: l, ?_, by rw [List.append_assoc] at hentries; exact hentries, fun h => ?_⟩
      · intro j hj
        cases j with
        | zero => exact hreply
        | succ j =>
          have := hl j (Nat.lt_of_succ_lt_succ hj)
          rw [show i + 1 + j = i + (j + 1) by omega] at this
          exact this
      · rcases hdone h with ⟨hend, hlt, hreads, entry, hentry⟩ | ⟨hend, heq, hreads⟩
        · refine Or.inl ⟨hend, Nat.succ_lt_succ hlt, hreads.trans ?_, entry, ?_⟩
          · rw [List.length_cons]
            omega
          · rw [List.length_cons, ← Nat.add_assoc, Nat.add_right_comm]
            exact hentry
        · refine Or.inr ⟨hend, by rw [List.length_cons, heq], hreads.trans (by omega)⟩

theorem readListing_lists (h : (Model.readListing replies).1.status = .ok) :
    ∃ l, Lists replies l ∧ (Model.readListing replies).1.entries = l.take maxEntries ∧
      (Model.readListing replies).2 = decide (maxEntries < l.length) ∧
      (Model.readListing replies).1.reads = min l.length maxEntries + 1 := by
  obtain ⟨l, hl, hentries, hdone⟩ := readEntries_spec replies maxEntries 0 []
  simp only [Nat.zero_add, List.nil_append] at hl hentries hdone
  unfold Model.readListing at h ⊢
  dsimp only at h ⊢
  generalize Model.readEntries replies maxEntries 0 [] = scan at *
  by_cases hprobe : scan.status = .ok ∧ (!scan.reachedEnd) = true ∧ scan.entries.length = maxEntries
  · obtain ⟨hok, hend, hfull⟩ := hprobe
    rw [if_pos ⟨hok, hend, hfull⟩] at h ⊢
    obtain ⟨-, hlen, hreads⟩ : scan.reachedEnd = false ∧ l.length = maxEntries ∧
        scan.reads = maxEntries := by
      rcases hdone hok with ⟨htrue, -⟩ | hfalse
      · rw [htrue] at hend
        cases hend
      · exact hfalse
    rcases hreply : replies scan.reads with ⟨status, probe, atEnd⟩
    rw [hreply] at h
    dsimp only at h ⊢
    subst h
    rw [hreads] at hreply
    cases atEnd with
    | true =>
      refine ⟨l, ⟨hl, Or.inr ⟨probe, by rw [hlen]; exact hreply⟩⟩, ?_, ?_⟩
      · rw [hentries, List.take_of_length_le hlen.le]
      · rw [hlen, hreads]
        exact ⟨rfl, rfl⟩
    | false =>
      refine ⟨l ++ [probe], ⟨fun j hj => ?_, Or.inl ?_⟩, ?_, ?_⟩
      · by_cases hjl : j < l.length
        · rw [List.getElem_append_left hjl]
          exact hl j hjl
        · obtain rfl : j = l.length := by
            rw [List.length_append, List.length_singleton] at hj
            omega
          rw [← hlen] at hreply
          rw [List.getElem_append_right (le_refl _)]
          simpa using hreply
      · rw [List.length_append, List.length_singleton, hlen]
        omega
      · rw [hentries, List.take_append_of_le_length hlen.ge, List.take_of_length_le hlen.le]
      · rw [List.length_append, List.length_singleton, hlen, hreads]
        exact ⟨rfl, rfl⟩
  · rw [if_neg hprobe] at h ⊢
    rcases hdone h with ⟨hend, hlt, hreads, entry, hentry⟩ | ⟨hend, hlen, -⟩
    · refine ⟨l, ⟨hl, Or.inr ⟨entry, hentry⟩⟩, ?_, (decide_eq_false (by omega)).symm, ?_⟩
      · rw [hentries, List.take_of_length_le hlt.le]
      · rw [hreads, Nat.min_eq_left hlt.le]
    · exact absurd ⟨h, by rw [hend]; rfl, by rw [hentries, hlen]⟩ hprobe

theorem Lists.length_le {l l' : List Entry} (h : Lists replies l) (h' : Lists replies l')
    (hlt : l.length < l'.length) : maxEntries < l.length := by
  rcases h.2 with hmax | ⟨entry, hend⟩
  · exact hmax
  · rw [h'.1 l.length hlt] at hend
    cases hend

theorem Lists.take_eq {l l' : List Entry} (h : Lists replies l) (h' : Lists replies l') :
    l.take maxEntries = l'.take maxEntries ∧ (maxEntries < l.length ↔ maxEntries < l'.length) := by
  -- what the model takes of a listing does not depend on where the listing is cut
  have hlength : min maxEntries l.length = min maxEntries l'.length := by
    rcases Nat.lt_trichotomy l.length l'.length with hlt | heq | hgt
    · have := h.length_le h' hlt
      omega
    · rw [heq]
    · have := h'.length_le h hgt
      omega
  refine ⟨List.ext_getElem ?_ fun j hj hj' => ?_, ?_⟩
  · rw [List.length_take, List.length_take, hlength]
  · rw [List.length_take] at hj hj'
    have hreply := h.1 j (by omega)
    rw [h'.1 j (by omega)] at hreply
    rw [List.getElem_take, List.getElem_take]
    simpa using hreply.symm
  · rcases Nat.lt_trichotomy l.length l'.length with hlt | heq | hgt
    · have := h.length_le h' hlt
      omega
    · rw [heq]
    · have := h'.length_le h hgt
      omega

end Listing

section Calls

theorem closes_append : ∀ held a b, closes held a → closes none b → closes held (a ++ b)
  | held, [], b, ha, hb => by
    obtain rfl : held = none := ha
    exact hb
  | held, call :: a, b, ha, hb => by
    cases call with
    | opendir _ _ _ => exact ⟨ha.1, closes_append _ a b ha.2 hb⟩
    | readdir _ => exact ⟨ha.1, closes_append _ a b ha.2 hb⟩
    | closedir _ => exact ⟨ha.1, closes_append _ a b ha.2 hb⟩
    | stat _ => exact closes_append held a b ha hb
    | mkdir _ => exact closes_append held a b ha hb
    | touch _ => exact closes_append held a b ha hb
    | move _ _ => exact closes_append held a b ha hb
    | remove _ => exact closes_append held a b ha hb

theorem closes_reads (handle : Int) : ∀ n,
    closes (some handle) (List.replicate n (.readdir handle) ++ [.closedir handle])
  | 0 => ⟨rfl, rfl⟩
  | n + 1 => ⟨rfl, closes_reads handle n⟩

theorem closes_mutation {call : VfsCall} (h : call.isMutation = true) {held : Option Int}
    {calls : List VfsCall} : closes held (call :: calls) ↔ closes held calls := by
  cases call with
  | mkdir _ => rfl
  | touch _ => rfl
  | move _ _ => rfl
  | remove _ => rfl
  | _ => cases h

end Calls

/-- What every operation keeps: the handle it opens is closed, a failure changes nothing, the path
stays well formed, and a listing is replaced as a whole. -/
structure Sound (m : Model) (r : Replies) (o : Outcome) : Prop where
  closed : closes none o.calls
  failed : o.status ≠ .ok → o.model = m
  path : ShownPath m.path → ShownPath o.model.path
  listed : o.status = .ok → (∃ call ∈ o.calls, call.isOpendir = true) →
    (∃ l, Lists r.readdir l) ∧ ∀ l, Lists r.readdir l →
      o.model.entries = l.take maxEntries ∧ (o.model.truncated = true ↔ maxEntries < l.length)
  kept : ¬(∃ call ∈ o.calls, call.isOpendir = true) →
    o.model.entries = m.entries ∧ o.model.truncated = m.truncated

def listingCalls (directory : CString) (handle : Int) (reads : Nat) : List VfsCall :=
  .opendir directory handle .ok :: List.replicate reads (.readdir handle) ++ [.closedir handle]

/-- What `directory` shows after it has been loaded: it has been opened, read up to its end or one entry
past what the model takes, and closed, and the entries and the truncation come from these answers. -/
structure Shows (directory : CString) (r : Replies) (o : Outcome) : Prop where
  path : o.model.path = directory
  opened : r.opendir.2 = .ok ∧ 0 ≤ r.opendir.1
  listing : ∃ l before, Lists r.readdir l ∧ o.model.entries = l.take maxEntries ∧
    (o.model.truncated = true ↔ maxEntries < l.length) ∧
    o.calls = before ++ listingCalls directory r.opendir.1 (min l.length maxEntries + 1) ∧
    ∀ call ∈ before, call.isOpendir = false

/-- The directory that an operation shows if it returns Ok; going up from the root, a selection and a change
of the view load nothing. -/
def Operation.directory (m : Model) : Operation → Option CString
  | .loadRoot => some [0x2F]
  | .navigateInto index => m.entries[index]?.map fun entry => joinPath m.path entry.name
  | .navigateParent => if m.path = [0x2F] then none else some (Model.parentPath m.path)
  | .select _ | .setView _ => none
  | .refresh | .createFolder _ | .createFile _ | .renameSelected _ | .removeSelected => some m.path

section Operations
variable {m : Model} {r : Replies}

theorem Model.replace_fields (m : Model) (path : CString) (entries : List Entry) (truncated : Bool) :
    (m.replace path entries truncated).path = path ∧
    (m.replace path entries truncated).entries = entries ∧
    (m.replace path entries truncated).truncated = truncated := by
  unfold Model.replace
  dsimp only
  split <;> exact ⟨rfl, rfl, rfl⟩

theorem Model.select_fields (m : Model) (index : Nat) :
    (m.select index).path = m.path ∧ (m.select index).entries = m.entries ∧
    (m.select index).truncated = m.truncated := by
  unfold Model.select
  split <;> exact ⟨rfl, rfl, rfl⟩

theorem Model.selectName_fields (m : Model) (name : CString) :
    (m.selectName name).path = m.path ∧ (m.selectName name).entries = m.entries ∧
    (m.selectName name).truncated = m.truncated := by
  unfold Model.selectName
  split
  · exact ⟨rfl, rfl, rfl⟩
  · exact m.select_fields _

theorem loadPath_cases (m : Model) (r : Replies) (candidate : CString) :
    closes none (m.loadPath r candidate).calls ∧
    (∀ call ∈ (m.loadPath r candidate).calls, call.isMutation = false) ∧
    (∃ call ∈ (m.loadPath r candidate).calls, call.isOpendir = true) ∧
    ((m.loadPath r candidate).status ≠ .ok ∧ (m.loadPath r candidate).model = m ∨
      (m.loadPath r candidate).status = .ok ∧ candidate.length < pathCapacity ∧
      ∃ l, Lists r.readdir l ∧ (m.loadPath r candidate).model =
        m.replace candidate (l.take maxEntries) (decide (maxEntries < l.length)) ∧
        r.opendir.2 = .ok ∧ 0 ≤ r.opendir.1 ∧ (m.loadPath r candidate).calls =
          listingCalls candidate r.opendir.1 (min l.length maxEntries + 1)) := by
  unfold Model.loadPath
  dsimp only
  by_cases hstatus : r.opendir.2 = .ok
  swap
  · rw [if_pos hstatus]
    refine ⟨?_, by simp [VfsCall.isMutation], by simp [VfsCall.isOpendir], Or.inl ⟨hstatus, rfl⟩⟩
    simp only [closes, hstatus, false_and, if_false, and_self]
  rw [if_neg (not_not.mpr hstatus)]
  by_cases hhandle : r.opendir.1 < 0
  · rw [if_pos hhandle]
    refine ⟨?_, by simp [VfsCall.isMutation], by simp [VfsCall.isOpendir],
      Or.inl ⟨fun h => (nomatch h), rfl⟩⟩
    simp only [closes, not_le.mpr hhandle, and_false, if_false, and_self]
  rw [if_neg hhandle]
  have hlists := @readListing_lists r.readdir
  rcases hscan : Model.readListing r.readdir with ⟨scan, truncated⟩
  rw [hscan] at hlists
  dsimp only at hlists ⊢
  generalize hcalls : (VfsCall.opendir candidate r.opendir.1 r.opendir.2 ::
    List.replicate scan.reads (.readdir r.opendir.1) ++ [.closedir r.opendir.1]) = calls
  have hclosed : closes none calls := by
    rw [← hcalls, List.cons_append]
    refine ⟨rfl, ?_⟩
    rw [if_pos ⟨hstatus, not_lt.mp hhandle⟩]
    exact closes_reads _ _
  have hquiet : ∀ call ∈ calls, call.isMutation = false := by
    rw [← hcalls]
    intro call hcall
    simp only [List.cons_append, List.mem_cons, List.mem_append, List.mem_replicate,
      List.not_mem_nil, or_false] at hcall
    rcases hcall with rfl | ⟨-, rfl⟩ | rfl <;> rfl
  have hopened : ∃ call ∈ calls, call.isOpendir = true :=
    ⟨_, by rw [← hcalls]; exact List.mem_cons_self, rfl⟩
  by_cases hread : scan.status = .ok
  swap
  · rw [if_pos hread]
    exact ⟨hclosed, hquiet, hopened, Or.inl ⟨hread, rfl⟩⟩
  rw [if_neg (not_not.mpr hread)]
  by_cases hclose : r.closedir = .ok
  swap
  · rw [if_pos hclose]
    exact ⟨hclosed, hquiet, hopened, Or.inl ⟨hclose, rfl⟩⟩
  rw [if_neg (not_not.mpr hclose)]
  unfold copyBounded
  by_cases hlen : candidate.length < pathCapacity
  · rw [if_pos hlen]
    obtain ⟨l, hl, hentries, htruncated, hreads⟩ := hlists hread
    refine ⟨hclosed, hquiet, hopened, Or.inr ⟨rfl, hlen, l, hl, ?_, hstatus, not_lt.mp hhandle, ?_⟩⟩
    · rw [hentries, htruncated]
    · rw [← hcalls, hstatus, hreads]
      rfl
  · rw [if_neg hlen]
    exact ⟨hclosed, hquiet, hopened, Or.inl ⟨fun h => (nomatch h), rfl⟩⟩

theorem sound_loadPath {candidate : CString}
    (hcandidate : ShownPath m.path → candidate.length < pathCapacity → ShownPath candidate) :
    Sound m r (m.loadPath r candidate) := by
  obtain ⟨hclosed, -, hopened, hcases⟩ := loadPath_cases m r candidate
  refine ⟨hclosed, ?_, ?_, ?_, fun hnone => absurd hopened hnone⟩
  · intro hfailed
    rcases hcases with ⟨-, hsame⟩ | ⟨hok, -⟩
    · exact hsame
    · exact absurd hok hfailed
  · intro hpath
    rcases hcases with ⟨-, hsame⟩ | ⟨-, hlen, l, -, hmodel, -⟩
    · rw [hsame]
      exact hpath
    · rw [hmodel, (m.replace_fields _ _ _).1]
      exact hcandidate hpath hlen
  · intro hok _
    rcases hcases with ⟨hfailed, -⟩ | ⟨-, -, l, hl, hmodel, -⟩
    · exact absurd hok hfailed
    · refine ⟨⟨l, hl⟩, fun l' hl' => ?_⟩
      obtain ⟨htake, hiff⟩ := hl.take_eq hl'
      rw [hmodel, (m.replace_fields _ _ _).2.1, (m.replace_fields _ _ _).2.2, decide_eq_true_iff, hiff]
      exact ⟨htake, Iff.rfl⟩

theorem sound_same (status : Status) : Sound m r ⟨status, m, []⟩ :=
  ⟨rfl, fun _ => rfl, id, fun _ h => by simp at h, fun _ => ⟨rfl, rfl⟩⟩

theorem sound_mutate {call : VfsCall} (hcall : call.isMutation = true)
    (mutation : Status) (name : Option CString) : Sound m r (m.mutate r call mutation name) := by
  have hopendir : call.isOpendir = false := by
    cases call with
    | opendir _ _ _ => cases hcall
    | _ => rfl
  have hload : Sound m r (m.refresh r) := sound_loadPath fun hpath _ => hpath
  have hcalls : ∀ calls : List VfsCall, (∃ c ∈ call :: calls, c.isOpendir = true) ↔
      ∃ c ∈ calls, c.isOpendir = true := by
    intro calls
    simp only [List.mem_cons, exists_eq_or_imp, hopendir, Bool.false_eq_true, false_or]
  unfold Model.mutate
  by_cases hok : mutation = .ok
  swap
  · rw [if_pos hok]
    refine ⟨(closes_mutation hcall).mpr rfl, fun _ => rfl, id, fun h => absurd h hok,
      fun _ => ⟨rfl, rfl⟩⟩
  rw [if_neg (not_not.mpr hok)]
  dsimp only
  have hplain : Sound m r ⟨(m.refresh r).status, (m.refresh r).model, call :: (m.refresh r).calls⟩ := by
    refine ⟨(closes_mutation hcall).mpr hload.closed, hload.failed, hload.path, fun h h' => ?_,
      fun h => ?_⟩
    · exact hload.listed h ((hcalls _).mp h')
    · exact hload.kept (mt (hcalls _).mpr h)
  cases name with
  | none => exact hplain
  | some name =>
    dsimp only
    split_ifs with hrefreshed
    · obtain ⟨hp, he, ht⟩ := (m.refresh r).model.selectName_fields name
      refine ⟨hplain.closed, fun h => absurd rfl h, ?_, fun _ h' => ?_, fun h => ?_⟩
      · rw [hp]
        exact hload.path
      · rw [he, ht]
        exact hplain.listed hrefreshed h'
      · rw [he, ht]
        exact hplain.kept h
    · exact hplain

theorem validateName_ok {name : CString} (h : validateName (some name) = .ok) :
    validPathComponent name = true := by
  unfold validateName at h
  dsimp only at h
  split_ifs at h with hv
  exact hv

theorem sound_navigateInto (index : Nat) :
    Sound m r (m.navigateInto r index) := by
  unfold Model.navigateInto
  cases m.entries[index]? with
  | none => exact sound_same _
  | some selected =>
    dsimp only
    split_ifs with h1 h2 h3
    · exact sound_same _
    · exact sound_same _
    · exact sound_same _
    · exact sound_loadPath fun hpath hlen => hpath.join (validateName_ok (not_not.mp h2)) hlen

theorem sound_navigateParent : Sound m r (m.navigateParent r) := by
  unfold Model.navigateParent
  split_ifs
  · exact sound_same _
  · exact sound_loadPath fun hpath _ => hpath.parent

theorem sound_createFolder (name : Option CString) :
    Sound m r (m.createFolder r name) := by
  cases name with
  | none => exact sound_same _
  | some name =>
    unfold Model.createFolder
    dsimp only
    split_ifs
    · exact sound_same _
    · cases buildChildPath m.path name with
      | none => exact sound_same _
      | some destination => exact sound_mutate rfl _ _

theorem sound_createFile (name : Option CString) :
    Sound m r (m.createFile r name) := by
  have hstat : ∀ destination o, Sound m r o →
      Sound m r { o with calls := .stat destination :: o.calls } := by
    intro destination o h
    refine ⟨h.closed, h.failed, h.path, fun hok hopened => h.listed hok ?_, fun hnone => h.kept ?_⟩
    · obtain ⟨call, hcall, hopen⟩ := hopened
      rcases List.mem_cons.mp hcall with rfl | hcall
      · cases hopen
      · exact ⟨call, hcall, hopen⟩
    · rintro ⟨call, hcall, hopen⟩
      exact hnone ⟨call, List.mem_cons_of_mem _ hcall, hopen⟩
  cases name with
  | none => exact sound_same _
  | some name =>
    unfold Model.createFile
    dsimp only
    by_cases hname : validateName (some name) = .ok
    swap
    · rw [if_pos hname]
      exact sound_same _
    · rw [if_neg (not_not.mpr hname)]
      cases buildChildPath m.path name with
      | none => exact sound_same _
      | some destination =>
        dsimp only
        split_ifs
        · exact hstat destination _ (sound_same _)
        · exact hstat destination _ (sound_same _)
        · exact hstat destination _ (sound_mutate rfl _ _)

theorem sound_renameSelected (name : Option CString) :
    Sound m r (m.renameSelected r name) := by
  unfold Model.renameSelected
  cases m.selectedIndex.bind fun i => m.entries[i]? with
  | none => exact sound_same _
  | some entry =>
    cases name with
    | none => exact sound_same _
    | some name =>
      dsimp only
      by_cases hname : validateName (some name) = .ok
      swap
      · rw [if_pos hname]
        exact sound_same _
      · rw [if_neg (not_not.mpr hname)]
        split
        · split_ifs
          · exact sound_same _
          · exact sound_mutate rfl _ _
        · exact sound_same _

theorem sound_removeSelected : Sound m r (m.removeSelected r) := by
  unfold Model.removeSelected
  cases m.selectedIndex.bind fun i => m.entries[i]? with
  | none => exact sound_same _
  | some entry =>
    dsimp only
    cases buildChildPath m.path entry.name with
    | none => exact sound_same _
    | some target => exact sound_mutate rfl _ _

theorem buildChildPath_some {parent name target : CString} (h : buildChildPath parent name = some target) :
    target = joinPath parent name := by
  unfold buildChildPath at h
  split_ifs at h
  exact (Option.some.inj h).symm

theorem createFolder_ok {name : CString} (hok : (m.createFolder r (some name)).status = .ok) :
    ∃ destination, m.createFolder r (some name) = m.mutate r (.mkdir destination) r.mkdir (some name) := by
  unfold Model.createFolder at hok ⊢
  dsimp only at hok ⊢
  by_cases hname : validateName (some name) = .ok
  · rw [if_neg (not_not.mpr hname)] at hok ⊢
    cases hpath : buildChildPath m.path name with
    | none =>
      rw [hpath] at hok
      cases hok
    | some destination => exact ⟨destination, rfl⟩
  · rw [if_pos hname] at hok
    exact absurd hok hname

theorem createFile_ok {name : CString} (hok : (m.createFile r (some name)).status = .ok) :
    ∃ destination, m.createFile r (some name) =
      { m.mutate r (.touch destination) r.touch (some name) with
        calls := .stat destination :: (m.mutate r (.touch destination) r.touch (some name)).calls } := by
  unfold Model.createFile at hok ⊢
  dsimp only at hok ⊢
  by_cases hname : validateName (some name) = .ok
  · rw [if_neg (not_not.mpr hname)] at hok ⊢
    cases hpath : buildChildPath m.path name with
    | none =>
      rw [hpath] at hok
      cases hok
    | some destination =>
      rw [hpath] at hok
      dsimp only at hok ⊢
      split_ifs at hok ⊢ with hexists hstat
      · exact absurd hok hexists
      · exact ⟨destination, rfl⟩
  · rw [if_pos hname] at hok
    exact absurd hok hname

theorem renameSelected_ok {name : CString} (hok : (m.renameSelected r (some name)).status = .ok) :
    ∃ i entry, m.selectedIndex = some i ∧ m.entries[i]? = some entry ∧ sameName entry.name name = false ∧
      m.renameSelected r (some name) =
        m.mutate r (.move (joinPath m.path entry.name) (joinPath m.path name)) r.move (some name) := by
  unfold Model.renameSelected at hok ⊢
  cases hselected : m.selectedIndex.bind fun i => m.entries[i]? with
  | none =>
    rw [hselected] at hok
    cases hok
  | some entry =>
    obtain ⟨i, hi, hget⟩ := Option.bind_eq_some_iff.mp hselected
    rw [hselected] at hok
    dsimp only at hok ⊢
    by_cases hname : validateName (some name) = .ok
    · rw [if_neg (not_not.mpr hname)] at hok ⊢
      cases hsource : buildChildPath m.path entry.name with
      | none =>
        rw [hsource] at hok
        cases hok
      | some source =>
        cases hdestination : buildChildPath m.path name with
        | none =>
          rw [hsource, hdestination] at hok
          cases hok
        | some destination =>
          rw [hsource, hdestination] at hok
          dsimp only at hok ⊢
          by_cases hsame : sameName entry.name name = true
          · rw [if_pos hsame] at hok
            cases hok
          · rw [if_neg hsame, buildChildPath_some hsource, buildChildPath_some hdestination]
            exact ⟨i, entry, hi, hget, Bool.eq_false_of_not_eq_true hsame, rfl⟩
    · rw [if_pos hname] at hok
      exact absurd hok hname

theorem removeSelected_ok (hok : (m.removeSelected r).status = .ok) :
    ∃ i entry, m.selectedIndex = some i ∧ m.entries[i]? = some entry ∧
      m.removeSelected r = m.mutate r (.remove (joinPath m.path entry.name)) r.remove none := by
  unfold Model.removeSelected at hok ⊢
  cases hselected : m.selectedIndex.bind fun i => m.entries[i]? with
  | none =>
    rw [hselected] at hok
    cases hok
  | some entry =>
    obtain ⟨i, hi, hget⟩ := Option.bind_eq_some_iff.mp hselected
    rw [hselected] at hok
    dsimp only at hok ⊢
    cases htarget : buildChildPath m.path entry.name with
    | none =>
      rw [htarget] at hok
      cases hok
    | some target =>
      rw [buildChildPath_some htarget]
      exact ⟨i, entry, hi, hget, rfl⟩

theorem shows_loadPath {candidate : CString} (hok : (m.loadPath r candidate).status = .ok) :
    Shows candidate r (m.loadPath r candidate) := by
  obtain ⟨-, -, -, ⟨hfailed, -⟩ | ⟨-, -, l, hl, hmodel, hopendir, hhandle, hcalls⟩⟩ := loadPath_cases m r candidate
  · exact absurd hok hfailed
  obtain ⟨hpath, hentries, htruncated⟩ := m.replace_fields candidate (l.take maxEntries) (decide (maxEntries < l.length))
  rw [← hmodel] at hpath hentries htruncated
  refine ⟨hpath, ⟨hopendir, hhandle⟩, l, [], hl, hentries, ?_, hcalls, fun _ h => nomatch h⟩
  rw [htruncated, decide_eq_true_iff]

theorem Shows.after {directory : CString} {o : Outcome} (h : Shows directory r o) {call : VfsCall}
    (hcall : call.isOpendir = false) : Shows directory r { o with calls := call :: o.calls } := by
  obtain ⟨l, before, hl, hentries, htruncated, hcalls, hbefore⟩ := h.listing
  refine ⟨h.path, h.opened, l, call :: before, hl, hentries, htruncated, ?_, List.forall_mem_cons.mpr ⟨hcall, hbefore⟩⟩
  dsimp only
  rw [hcalls, List.cons_append]

theorem shows_mutate {call : VfsCall} (hcall : call.isMutation = true) {mutation : Status} {name : Option CString}
    (hok : (m.mutate r call mutation name).status = .ok) : Shows m.path r (m.mutate r call mutation name) := by
  have hopendir : call.isOpendir = false := by
    cases call with
    | opendir _ _ _ => cases hcall
    | _ => rfl
  unfold Model.mutate at hok ⊢
  by_cases hmutation : mutation = .ok
  swap
  · rw [if_pos hmutation] at hok
    exact absurd hok hmutation
  rw [if_neg (not_not.mpr hmutation)] at hok ⊢
  cases name with
  | none =>
    have hrefreshed : Shows m.path r (m.refresh r) := shows_loadPath hok
    exact hrefreshed.after hopendir
  | some name =>
    dsimp only at hok ⊢
    by_cases hrefreshed : (m.refresh r).status = .ok
    swap
    · rw [if_neg hrefreshed] at hok
      exact absurd hok hrefreshed
    rw [if_pos hrefreshed]
    have hshows : Shows m.path r (m.refresh r) := shows_loadPath hrefreshed
    obtain ⟨hp, he, ht⟩ := (m.refresh r).model.selectName_fields name
    obtain ⟨l, before, hl, hentries, htruncated, hcalls⟩ := hshows.listing
    have hselected : Shows m.path r ⟨.ok, (m.refresh r).model.selectName name, (m.refresh r).calls⟩ :=
      ⟨hp.trans hshows.path, hshows.opened, l, before, hl, he.trans hentries, by rw [ht, htruncated], hcalls⟩
    exact hselected.after hopendir

theorem shows_navigateInto {index : Nat} {entry : Entry} (hentry : m.entries[index]? = some entry)
    (hok : (m.navigateInto r index).status = .ok) :
    Shows (joinPath m.path entry.name) r (m.navigateInto r index) := by
  unfold Model.navigateInto at hok ⊢
  rw [hentry] at hok ⊢
  dsimp only at hok ⊢
  split_ifs at hok ⊢ with h1 h2 h3
  · exact absurd hok h2
  · exact shows_loadPath hok

theorem shows_step (op : Operation) {directory : CString} (hdirectory : op.directory m = some directory)
    (hok : (m.step r op).status = .ok) : Shows directory r (m.step r op) := by
  cases op with
  | loadRoot =>
    obtain rfl := Option.some.inj hdirectory
    exact shows_loadPath hok
  | refresh =>
    obtain rfl := Option.some.inj hdirectory
    exact shows_loadPath hok
  | navigateInto index =>
    obtain ⟨entry, hentry, rfl⟩ := Option.map_eq_some_iff.mp hdirectory
    exact shows_navigateInto hentry hok
  | navigateParent =>
    simp only [Operation.directory] at hdirectory
    split_ifs at hdirectory with hroot
    obtain rfl := Option.some.inj hdirectory
    simp only [Model.step, Model.navigateParent, if_neg hroot] at hok ⊢
    exact shows_loadPath hok
  | createFolder name =>
    obtain rfl := Option.some.inj hdirectory
    cases name with
    | none => cases hok
    | some name =>
      obtain ⟨destination, hmutate⟩ := createFolder_ok hok
      simp only [Model.step, hmutate] at hok ⊢
      exact shows_mutate rfl hok
  | createFile name =>
    obtain rfl := Option.some.inj hdirectory
    cases name with
    | none => cases hok
    | some name =>
      obtain ⟨destination, hmutate⟩ := createFile_ok hok
      simp only [Model.step, hmutate] at hok ⊢
      exact (shows_mutate rfl hok).after rfl
  | renameSelected name =>
    obtain rfl := Option.some.inj hdirectory
    cases name with
    | none =>
      simp only [Model.step, Model.renameSelected] at hok
      split at hok <;> cases hok
    | some name =>
      obtain ⟨_, _, -, -, -, hmutate⟩ := renameSelected_ok hok
      simp only [Model.step, hmutate] at hok ⊢
      exact shows_mutate rfl hok
  | removeSelected =>
    obtain rfl := Option.some.inj hdirectory
    obtain ⟨_, _, -, -, hmutate⟩ := removeSelected_ok hok
    simp only [Model.step, hmutate] at hok ⊢
    exact shows_mutate rfl hok
  | select index => cases hdirectory
  | setView view => cases hdirectory

theorem shows_none (op : Operation) (hdirectory : op.directory m = none) (hok : (m.step r op).status = .ok) :
    (m.step r op).calls = [] ∧ (m.step r op).model.path = m.path := by
  cases op with
  | navigateInto index =>
    simp only [Model.step, Model.navigateInto, Option.map_eq_none_iff.mp hdirectory] at hok
    cases hok
  | navigateParent =>
    simp only [Operation.directory] at hdirectory
    split_ifs at hdirectory with hroot
    simp only [Model.step, Model.navigateParent, if_pos hroot, and_self]
  | select index => exact ⟨rfl, (m.select_fields index).1⟩
  | setView view => exact ⟨rfl, rfl⟩
  | _ => cases hdirectory

theorem sound_step (op : Operation) : Sound m r (m.step r op) := by
  cases op with
  | loadRoot => exact sound_loadPath fun _ _ => ⟨[], by simp, rfl, by decide⟩
  | refresh => exact sound_loadPath fun hpath _ => hpath
  | navigateInto index => exact sound_navigateInto index
  | navigateParent => exact sound_navigateParent
  | createFolder name => exact sound_createFolder name
  | createFile name => exact sound_createFile name
  | renameSelected name => exact sound_renameSelected name
  | removeSelected => exact sound_removeSelected
  | select index =>
    obtain ⟨hp, he, ht⟩ := m.select_fields index
    refine ⟨rfl, fun h => absurd rfl h, fun hpath => ?_, fun _ h => by simp [Model.step] at h,
      fun _ => ⟨he, ht⟩⟩
    rw [← hp] at hpath
    exact hpath
  | setView view =>
    exact ⟨rfl, fun h => absurd rfl h, id, fun _ h => by simp [Model.step] at h, fun _ => ⟨rfl, rfl⟩⟩

end Operations

theorem run_shownPath : ∀ run m, ShownPath m.path →
    ShownPath (runOperations run m).1.path ∧ closes none (runOperations run m).2
  | [], m, h => ⟨h, rfl⟩
  | (op, r) :: rest, m, h => by
    have hstep : Sound m r (m.step r op) := sound_step op
    obtain ⟨hpath, hclosed⟩ := run_shownPath rest (m.step r op).model (hstep.path h)
    exact ⟨hpath, closes_append none _ _ hstep.closed hclosed⟩

theorem selectedIndex_spec {m : Model} {i : Nat} (h : m.selectedIndex = some i) :
    ∃ entry, m.entries[i]? = some entry ∧ sameName m.selectedName entry.name = true := by
  unfold Model.selectedIndex Model.findName at h
  split_ifs at h
  obtain ⟨hi, hname, -⟩ := List.findIdx?_eq_some_iff_getElem.mp h
  exact ⟨m.entries[i], List.getElem?_eq_getElem hi, hname⟩

theorem navigate_back {m : Model} (hpath : ShownPath m.path) (r r' : Replies) (index : Nat)
    (hinto : (m.navigateInto r index).status = .ok)
    (hparent : ((m.navigateInto r index).model.navigateParent r').status = .ok) :
    ((m.navigateInto r index).model.navigateParent r').model.path = m.path := by
  obtain ⟨name, hname, hentered⟩ : ∃ name, validPathComponent name = true ∧
      (m.navigateInto r index).model.path = joinPath m.path name := by
    unfold Model.navigateInto at hinto ⊢
    cases hentry : m.entries[index]? with
    | none =>
      rw [hentry] at hinto
      cases hinto
    | some selected =>
      rw [hentry] at hinto
      dsimp only at hinto ⊢
      split_ifs at hinto ⊢ with h1 h2 h3
      · exact absurd hinto h2
      · refine ⟨selected.name, validateName_ok (not_not.mp h2), ?_⟩
        obtain ⟨-, -, -, hcases⟩ := loadPath_cases m r (joinPath m.path selected.name)
        rcases hcases with ⟨hfailed, -⟩ | ⟨-, -, l, -, hmodel, -⟩
        · exact absurd hinto hfailed
        · rw [hmodel, (m.replace_fields _ _ _).1]
  generalize (m.navigateInto r index).model = child at *
  have hback : Model.parentPath child.path = m.path := by
    rw [hentered]
    exact parentPath_join hpath hname
  unfold Model.navigateParent at hparent ⊢
  split_ifs at hparent ⊢ with hroot
  · -- a joined path is never the root
    rw [hroot] at hback hentered
    rw [hroot, ← hback]
    rfl
  · obtain ⟨-, -, -, hcases⟩ := loadPath_cases child r' (Model.parentPath child.path)
    rcases hcases with ⟨hfailed, -⟩ | ⟨-, -, l, -, hmodel, -⟩
    · exact absurd hparent hfailed
    · rw [hmodel, (child.replace_fields _ _ _).1, hback]

/-- The file manager's model over every run of its operations, for any answers of the VFS. -/
theorem model_runs (run : List (Operation × Replies)) :
    ShownPath (runOperations run .initial).1.path ∧
    closes none (runOperations run .initial).2 ∧
    (∀ i, (runOperations run .initial).1.selectedIndex = some i →
      ∃ entry, (runOperations run .initial).1.entries[i]? = some entry ∧
        sameName (runOperations run .initial).1.selectedName entry.name = true) ∧
    (∀ r op, Sound (runOperations run .initial).1 r ((runOperations run .initial).1.step r op)) ∧
    (∀ r op, ((runOperations run .initial).1.step r op).status = .ok →
      (∀ directory, op.directory (runOperations run .initial).1 = some directory →
        Shows directory r ((runOperations run .initial).1.step r op)) ∧
      (op.directory (runOperations run .initial).1 = none →
        ((runOperations run .initial).1.step r op).calls = [] ∧
        ((runOperations run .initial).1.step r op).model.path = (runOperations run .initial).1.path)) ∧
    (∀ r r' index, ((runOperations run .initial).1.navigateInto r index).status = .ok →
      (((runOperations run .initial).1.navigateInto r index).model.navigateParent r').status = .ok →
      (((runOperations run .initial).1.navigateInto r index).model.navigateParent r').model.path =
        (runOperations run .initial).1.path) := by
  have hinitial : ShownPath Model.initial.path := ⟨[], by simp, rfl, by decide⟩
  obtain ⟨hpath, hclosed⟩ := run_shownPath run .initial hinitial
  exact ⟨hpath, hclosed, fun i => selectedIndex_spec, fun r op => sound_step op,
    fun r op hok => ⟨fun _ h => shows_step op h hok, fun h => shows_none op h hok⟩,
    fun r r' index => navigate_back hpath r r' index⟩

end Linux95.Gui.FileManager
