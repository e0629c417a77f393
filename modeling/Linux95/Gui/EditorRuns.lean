import Linux95.Gui.EditorFile
import Mathlib.Data.List.TakeWhile

/-! Whole sessions of the editor: what is known of the text, of the flags and of the file. -/

namespace Linux95.Gui.Editor
open Input Storage

namespace EditorModel

section storage

variable {storage : Nat → UInt8}

theorem shiftUp_eq (cursor top : Nat) (storage : Nat → UInt8) (i : Nat) :
    shiftUp cursor top storage i = if cursor < i ∧ i ≤ top then storage (i - 1) else storage i := by
  induction top generalizing storage with
  | zero =>
    rw [shiftUp, if_neg (by omega)]
  | succ top ih =>
    rw [shiftUp]
    split
    · rw [ih]
      rcases eq_or_ne i (top + 1) with rfl | hi
      · rw [if_neg (by omega), if_pos (by omega), Function.update_self]
        rfl
      · rw [Function.update_of_ne hi]
        by_cases hin : cursor < i ∧ i ≤ top
        · rw [if_pos hin, if_pos (by omega), Function.update_of_ne (by omega)]
        · rw [if_neg hin, if_neg (by omega)]
    · rw [if_neg (by omega)]

theorem shiftDown_eq (length left start : Nat) (storage : Nat → UInt8) (hleft : length ≤ start + left)
    (i : Nat) :
    shiftDown length left start storage i =
      if start ≤ i ∧ i + 1 < length then storage (i + 1) else storage i := by
  induction left generalizing start storage with
  | zero => rw [shiftDown, if_neg (by omega)]
  | succ left ih =>
    rw [shiftDown]
    split
    · rw [ih _ _ (by omega)]
      by_cases hin : start + 1 ≤ i ∧ i + 1 < length
      · rw [if_pos hin, if_pos (by omega), Function.update_of_ne (by omega)]
      · rw [if_neg hin]
        rcases eq_or_ne i start with rfl | hi
        · rw [Function.update_self, if_pos (by omega)]
        · rw [Function.update_of_ne hi, if_neg (by omega)]
    · rw [if_neg (by omega)]

end storage

variable {m : EditorModel}

structure Valid (m : EditorModel) : Prop where
  cursor : m.cursor ≤ m.length
  length : m.length ≤ textCapacity
  supported : ∀ i < m.length, supportedTextByte (m.storage i) = true

theorem Valid.insertByte (h : m.Valid) {byte : UInt8} (hb : supportedTextByte byte = true)
    (hroom : m.length < textCapacity) : (m.insertByte byte).Valid := by
  refine ⟨Nat.succ_le_succ h.cursor, hroom, ?_⟩
  intro i hi
  have hi' : i < m.length + 1 := hi
  show supportedTextByte
    (Function.update (shiftUp m.cursor m.length m.storage) m.cursor byte i) = true
  rcases eq_or_ne i m.cursor with rfl | hne
  · rw [Function.update_self]
    exact hb
  · rw [Function.update_of_ne hne, shiftUp_eq]
    have hcur := h.cursor
    split
    · exact h.supported _ (by omega)
    · exact h.supported _ (by omega)

theorem Valid.backspace (h : m.Valid) : m.backspace.2.Valid := by
  rw [EditorModel.backspace]
  split
  · exact h
  · next hguard =>
    have hcur := h.cursor
    have hpos : m.cursor ≠ 0 := by
      intro h0
      simp [h0] at hguard
    refine ⟨Nat.sub_le_sub_right hcur 1, Nat.le_trans (Nat.sub_le _ _) h.length, ?_⟩
    intro i hi
    have hi' : i < m.length - 1 := hi
    show supportedTextByte (shiftDown m.length m.length (m.cursor - 1) m.storage i) = true
    rw [shiftDown_eq _ _ _ _ (by omega)]
    split
    · exact h.supported _ (by omega)
    · exact h.supported _ (by omega)

theorem boundsFrom_le (requested left i line start : Nat) {lineBegin lineEnd : Nat}
    (hi : i + left = m.length) (hs : start ≤ i)
    (h : m.boundsFrom requested left i line start = some (lineBegin, lineEnd)) :
    lineBegin ≤ lineEnd ∧ lineEnd ≤ m.length := by
  induction left generalizing i line start with
  | zero =>
    rw [boundsFrom] at h
    split at h
    · cases h
      exact ⟨by omega, Nat.le_refl _⟩
    · cases h
  | succ left ih =>
    rw [boundsFrom] at h
    split at h
    · exact ih (i + 1) line start (by omega) (by omega) h
    · split at h
      · cases h
        exact ⟨hs, by omega⟩
      · exact ih (i + 1) (line + 1) (i + 1) (by omega) (Nat.le_refl _) h

structure SameText (m m' : EditorModel) : Prop where
  storage : m'.storage = m.storage
  length : m'.length = m.length
  path : m'.path = m.path
  capacity : m'.capacity = m.capacity
  modified : m'.modified = m.modified
  started : m'.started = m.started
  pending : m'.forcedQuitPending = m.forcedQuitPending

theorem SameText.refl (m : EditorModel) : SameText m m := ⟨rfl, rfl, rfl, rfl, rfl, rfl, rfl⟩

theorem SameText.text {m' : EditorModel} (h : SameText m m') : m'.text = m.text := by
  rw [EditorModel.text, h.length, h.storage]
  rfl

theorem SameText.valid {m' : EditorModel} (h : SameText m m') (hv : m.Valid)
    (hc : m'.cursor ≤ m.length) : m'.Valid := by
  refine ⟨?_, ?_, ?_⟩
  · rw [h.length]
    exact hc
  · rw [h.length]
    exact hv.length
  · rw [h.length, h.storage]
    exact hv.supported

theorem moveToLine_same (line : Nat) : SameText m (m.moveToLine line) := by
  rw [moveToLine]
  split
  · exact .refl m
  · exact ⟨rfl, rfl, rfl, rfl, rfl, rfl, rfl⟩

theorem moveToLine_cursor (hv : m.Valid) (line : Nat) : (m.moveToLine line).cursor ≤ m.length := by
  rw [moveToLine]
  split
  · exact hv.cursor
  · next lineBegin lineEnd h =>
    rw [lineBounds] at h
    split at h
    · cases h
    · obtain ⟨hle, hend⟩ := boundsFrom_le _ _ _ _ _ (Nat.zero_add _) (Nat.le_refl _) h
      dsimp only
      split <;> omega

structure Edited (m m' : EditorModel) : Prop where
  valid : m.Valid → m'.Valid
  path : m'.path = m.path
  capacity : m'.capacity = m.capacity
  started : m'.started = m.started
  pending : m'.forcedQuitPending = m.forcedQuitPending
  kept : m'.modified = true ∨ (m'.modified = m.modified ∧ m'.text = m.text)

theorem Edited.of_same {m' : EditorModel} (h : SameText m m')
    (hc : m.Valid → m'.cursor ≤ m.length) : Edited m m' :=
  ⟨fun hv => h.valid hv (hc hv), h.path, h.capacity, h.started, h.pending, Or.inr ⟨h.modified, h.text⟩⟩

theorem Edited.insertByte {byte : UInt8} (hb : supportedTextByte byte = true)
    (hroom : m.length < textCapacity) : Edited m (m.insertByte byte) :=
  ⟨fun hv => hv.insertByte hb hroom, rfl, rfl, rfl, rfl, Or.inl rfl⟩

theorem setStatusMessage_same (message : List UInt8) : SameText m (m.setStatusMessage message) :=
  ⟨rfl, rfl, rfl, rfl, rfl, rfl, rfl⟩

theorem insert_cases (m : EditorModel) (byte : UInt8) :
    m.insert byte = (false, m) ∨
      (m.insert byte = (true, m.insertByte byte) ∧ supportedTextByte byte = true ∧
        m.length < textCapacity) := by
  rw [insert]
  split
  · exact Or.inl rfl
  · next hguard =>
    simp only [Bool.or_eq_true, Bool.not_eq_true', decide_eq_true_eq, not_or] at hguard
    obtain ⟨⟨⟨-, hlow⟩, hhigh⟩, hroom⟩ := hguard
    refine Or.inr ⟨rfl, ?_, by omega⟩
    simp only [supportedTextByte, Bool.or_eq_true, Bool.and_eq_true, decide_eq_true_eq]
    exact Or.inr ⟨UInt8.not_lt.mp hlow, UInt8.not_lt.mp hhigh⟩

theorem insertNewline_cases (m : EditorModel) :
    m.insertNewline = (false, m) ∨
      (m.insertNewline = (true, m.insertByte 0x0A) ∧ m.length < textCapacity) := by
  rw [insertNewline]
  split
  · exact Or.inl rfl
  · next hguard =>
    simp only [Bool.or_eq_true, Bool.not_eq_true', decide_eq_true_eq, not_or] at hguard
    exact Or.inr ⟨rfl, by omega⟩

theorem editKey_edited (m : EditorModel) (event : KeyEvent) : Edited m (m.editKey event) := by
  have hself : Edited m m := .of_same (.refl m) Valid.cursor
  have hstatus : ∀ message, Edited m (m.setStatusMessage message) := fun message =>
    .of_same (setStatusMessage_same message) Valid.cursor
  rw [editKey]
  split
  · split
    · exact hself
    · rcases m.insert_cases event.character with heq | ⟨heq, hb, hroom⟩
      · rw [heq]
        exact hstatus _
      · rw [heq]
        exact Edited.insertByte hb hroom
  · rcases m.insertNewline_cases with heq | ⟨heq, hroom⟩
    · rw [heq]
      exact hstatus _
    · rw [heq]
      exact Edited.insertByte (by decide) hroom
  · have hvalid : m.Valid → m.backspace.2.Valid := Valid.backspace
    rw [backspace] at hvalid ⊢
    split
    · exact hself
    · next hguard =>
      rw [if_neg hguard] at hvalid
      exact ⟨hvalid, rfl, rfl, rfl, rfl, Or.inl rfl⟩
  · rw [moveLeft]
    split
    · exact .of_same ⟨rfl, rfl, rfl, rfl, rfl, rfl, rfl⟩ fun hv =>
        Nat.le_trans (Nat.sub_le _ _) hv.cursor
    · exact .of_same ⟨rfl, rfl, rfl, rfl, rfl, rfl, rfl⟩ Valid.cursor
  · rw [moveRight]
    split
    · next hguard =>
      rw [Bool.and_eq_true, decide_eq_true_eq] at hguard
      exact .of_same ⟨rfl, rfl, rfl, rfl, rfl, rfl, rfl⟩ fun _ => hguard.2
    · exact .of_same ⟨rfl, rfl, rfl, rfl, rfl, rfl, rfl⟩ Valid.cursor
  · rw [moveUp]
    split
    · exact hself
    · split
      · exact hself
      · exact .of_same (moveToLine_same _) fun hv => moveToLine_cursor hv _
  · rw [moveDown]
    split
    · exact hself
    · split
      · exact hself
      · exact .of_same (moveToLine_same _) fun hv => moveToLine_cursor hv _
  · exact hself
  · exact hself
  · exact hself

inductive KeyOutcome (m : EditorModel) (event : KeyEvent) : EditorAction × EditorModel → Prop where
  | ignored (h : m.started = false ∨ event.pressed = false) : KeyOutcome m event (.none, m)
  | save {m' : EditorModel} (hp : event.pressed = true) (hq : isCtrlQ event = false)
      (hs : SameText { m with forcedQuitPending := false } m') (hc : m'.cursor = m.cursor) :
      KeyOutcome m event (.save, m')
  | cleanQuit {m' : EditorModel} (hp : event.pressed = true) (hq : isCtrlQ event = true)
      (hmod : m.modified = false) (hs : SameText { m with forcedQuitPending := false } m')
      (hc : m'.cursor = m.cursor) : KeyOutcome m event (.quit, m')
  | forcedQuit {m' : EditorModel} (hp : event.pressed = true) (hq : isCtrlQ event = true)
      (hmod : m.modified = true) (hpending : m.forcedQuitPending = true)
      (hs : SameText { m with forcedQuitPending := false } m') (hc : m'.cursor = m.cursor) :
      KeyOutcome m event (.quit, m')
  | warning {m' : EditorModel} (hp : event.pressed = true) (hq : isCtrlQ event = true)
      (hst : m.started = true) (hmod : m.modified = true) (hs : SameText { m with forcedQuitPending := true } m')
      (hc : m'.cursor = m.cursor) (hstatus : m'.status = unsavedWarning) :
      KeyOutcome m event (.none, m')
  | edit {m' : EditorModel} (hp : event.pressed = true) (hq : isCtrlQ event = false)
      (he : Edited { m with forcedQuitPending := false } m') : KeyOutcome m event (.none, m')

theorem handleKey_outcome (m : EditorModel) (event : KeyEvent) :
    KeyOutcome m event (m.handleKey event) := by
  rw [handleKey]
  split
  · next hguard =>
    apply KeyOutcome.ignored
    simpa using hguard
  · next hguard =>
    simp only [Bool.or_eq_true, Bool.not_eq_true', not_or, Bool.not_eq_false] at hguard
    obtain ⟨hst, hp⟩ := hguard
    split
    · next hs =>
      refine .save hp ?_ (setStatusMessage_same _) rfl
      -- the two shortcuts need different characters
      simp only [isCtrlS, isShortcut, Bool.and_eq_true, Bool.or_eq_true, decide_eq_true_eq] at hs
      rw [isCtrlQ, isShortcut]
      rcases hs.2 with hc | hc
      · rw [hc, Bool.and_eq_false_iff]
        exact Or.inr (by decide)
      · rw [hc, Bool.and_eq_false_iff]
        exact Or.inr (by decide)
    · split
      · next hq =>
        split
        · next hmod =>
          exact .cleanQuit hp hq (by simpa using hmod) (setStatusMessage_same _) rfl
        · next hmod =>
          have hmod' : m.modified = true := by simpa using hmod
          split
          · next hpending => exact .forcedQuit hp hq hmod' hpending (.refl _) rfl
          · refine .warning hp hq hst hmod' (setStatusMessage_same _) rfl ?_
            show (unsavedWarning.takeWhile (· ≠ 0)).take (statusCapacity - 1) = unsavedWarning
            decide
      · next hq =>
        apply KeyOutcome.edit hp (by simpa using hq)
        have he := editKey_edited (setStatusMessage { m with forcedQuitPending := false } []) event
        exact ⟨fun hv => he.valid ⟨hv.cursor, hv.length, hv.supported⟩, he.path, he.capacity,
          he.started, he.pending, he.kept⟩

structure Opened (m : EditorModel) (path text : List UInt8) : Prop where
  valid : m.Valid
  text : m.text = text
  pathOk : validPath path = true
  noNul : path.takeWhile (· ≠ 0) = path
  path : m.path = path
  capacity : textCapacity ≤ m.capacity
  modified : m.modified = false
  started : m.started = true
  pending : m.forcedQuitPending = false

theorem validPath_takeWhile (path : List UInt8) :
    EditorModel.validPath (path.takeWhile (· ≠ 0)) = EditorModel.validPath path := by
  rw [EditorModel.validPath, EditorModel.validPath, List.takeWhile_idem]

theorem opened_begin (path : List UInt8) {length : Nat} (fileExists : Bool)
    (hc : textCapacity ≤ m.capacity) (hl : length ≤ textCapacity)
    (hp : EditorModel.validPath path = true)
    (hs : ∀ i < length, supportedTextByte (m.storage i) = true) :
    Opened (m.begin (path.takeWhile (· ≠ 0)) length fileExists) (path.takeWhile (· ≠ 0))
      ((List.range length).map m.storage) where
  valid := ⟨Nat.le_refl _, hl, hs⟩
  text := rfl
  pathOk := (validPath_takeWhile path).trans hp
  noNul := List.takeWhile_idem
  path := rfl
  capacity := hc
  modified := rfl
  started := rfl
  pending := rfl

theorem writeBytes_text (storage : Nat → UInt8) (data : List UInt8) :
    (List.range data.length).map (writeBytes storage 0 data) = data := by
  apply List.ext_getElem
  · simp
  · intro i hi hi'
    simp [writeBytes, hi']

theorem init_cases (m : EditorModel) (path : Option (List UInt8)) (data : List UInt8)
    (fileExists : Bool) :
    m.init path data fileExists = (false, m) ∨
      ∃ p m', path = some p ∧ m.init path data fileExists = (true, m') ∧
        Opened m' (p.takeWhile (· ≠ 0)) data := by
  cases path with
  | none => exact Or.inl rfl
  | some path =>
    rw [init]
    split
    · exact Or.inl rfl
    · next hsize =>
      split
      · exact Or.inl rfl
      · next hpath =>
        split
        · exact Or.inl rfl
        · next hbytes =>
          refine Or.inr ⟨path, _, rfl, rfl, ?_⟩
          have hs : ∀ i < data.length,
              supportedTextByte (writeBytes m.storage 0 data i) = true := by
            intro i hi
            simp only [List.any_eq_true, Bool.not_eq_true', not_exists, not_and] at hbytes
            have hb := hbytes data[i] (List.getElem_mem hi)
            simpa [writeBytes, hi] using hb
          have ho := opened_begin (m := { m with storage := writeBytes m.storage 0 data })
            path fileExists (by simp only; omega) (by omega) (by simpa using hpath) hs
          have htext : (List.range data.length).map (writeBytes m.storage 0 data) = data :=
            writeBytes_text m.storage data
          rw [htext] at ho
          exact ho

theorem initFromStorage_cases (m : EditorModel) (path : List UInt8) (length : Nat)
    (fileExists : Bool) :
    m.initFromStorage (some path) length fileExists = (false, m) ∨
      ∃ m', m.initFromStorage (some path) length fileExists = (true, m') ∧
        Opened m' (path.takeWhile (· ≠ 0)) ((List.range length).map m.storage) := by
  rw [initFromStorage]
  split
  · exact Or.inl rfl
  · next hsize =>
    split
    · exact Or.inl rfl
    · next hpath =>
      split
      · exact Or.inl rfl
      · next hbytes =>
        refine Or.inr ⟨_, rfl, ?_⟩
        apply opened_begin _ fileExists (by omega) (by omega) (by simpa using hpath)
        intro i hi
        simp only [List.any_eq_true, Bool.not_eq_true', not_exists, not_and] at hbytes
        have hb := hbytes (m.storage i) (List.mem_map.mpr ⟨i, List.mem_range.mpr hi, rfl⟩)
        simpa using hb

section openFile

variable {σ : Type} (v : VfsCalls σ)

/-- What `open_file` leaves: an initialised model, or the old one with some other storage. -/
def OpenOutcome (m : EditorModel) (path : List UInt8) (r : Status × EditorModel × σ) : Prop :=
  (r.1 = .ok ∧ ∃ text, Opened r.2.1 path text) ∨
    (r.1 ≠ .ok ∧ ∃ storage, r.2.1 = { m with storage := storage })

theorem openNew_outcome (m : EditorModel) {path : List UInt8}
    (hpath : path.takeWhile (· ≠ 0) = path) (s : σ) : OpenOutcome m path (m.openNew v path s) := by
  rw [openNew]
  split
  · rcases m.init_cases (some path) [] false with heq | ⟨p, m', hp, heq, ho⟩
    · rw [heq]
      exact Or.inr ⟨by simp, m.storage, rfl⟩
    · rw [heq]
      cases hp
      rw [hpath] at ho
      exact Or.inl ⟨rfl, _, ho⟩
  · next status s' hne heq =>
    refine Or.inr ⟨?_, m.storage, rfl⟩
    rintro rfl
    exact hne rfl

theorem finishLoad_outcome (m : EditorModel) {path : List UInt8} (storage : Nat → UInt8)
    (hpath : path.takeWhile (· ≠ 0) = path) (size : Nat) (status : Status) (s : σ) :
    OpenOutcome m path (finishLoad { m with storage := storage } path size status s) := by
  rw [finishLoad]
  split
  · next hne => exact Or.inr ⟨hne, storage, rfl⟩
  · rcases initFromStorage_cases { m with storage := storage } path size true with
      heq | ⟨m', heq, ho⟩
    · rw [heq]
      exact Or.inr ⟨by simp, storage, rfl⟩
    · rw [heq]
      rw [hpath] at ho
      exact Or.inl ⟨rfl, _, ho⟩

theorem load_outcome (m : EditorModel) {path : List UInt8}
    (hpath : path.takeWhile (· ≠ 0) = path) (size : Nat) (s : σ) :
    OpenOutcome m path (m.load v path size s) := by
  rw [load]
  split
  · next status s' heq => exact Or.inr ⟨status.property, m.storage, rfl⟩
  · exact finishLoad_outcome m _ hpath _ _ _

theorem openFile_outcome (m : EditorModel) (path : Option (List UInt8)) (s : σ) :
    OpenOutcome m ((path.getD []).takeWhile (· ≠ 0)) (m.openFile v path s) := by
  have hsame : ∀ {p : List UInt8} {status : Status} {s' : σ}, status ≠ .ok →
      OpenOutcome m p (status, m, s') := fun hne => Or.inr ⟨hne, m.storage, rfl⟩
  rw [openFile]
  split
  · exact hsame (by decide)
  · exact hsame (by decide)
  · next p hne hmap =>
    obtain ⟨q, rfl, rfl⟩ := Option.map_eq_some_iff.mp hmap
    have hpath : (q.takeWhile (· ≠ 0)).takeWhile (· ≠ 0) = q.takeWhile (· ≠ 0) :=
      List.takeWhile_idem
    rw [Option.getD_some]
    split
    · next status s' hstat =>
      split
      · exact openNew_outcome v m hpath s'
      · exact hsame status.property
    · split
      · exact hsame (by decide)
      · split
        · exact hsame (by decide)
        · split
          · exact hsame (by decide)
          · exact load_outcome v m hpath _ _

end openFile

end EditorModel

inductive Call where
  | key (event : KeyEvent)
  | save
  | init (path : Option (List UInt8)) (data : List UInt8) (fileExists : Bool)
  | openFile (path : Option (List UInt8))

/-- The editor with its VFS and what the calls so far say: the text last loaded or successfully
saved, the path it was opened with, whether the last pressed key was a Ctrl+Q answered by the warning
with no save and no initialisation since, and whether the buffer is as the editor left it: a failed
`open_file` may have read into it. -/
structure Session (σ : Type) where
  model : EditorModel
  vfs : σ
  baseline : List UInt8
  openedPath : List UInt8
  warned : Bool
  intact : Bool

namespace Session

open EditorModel

variable {σ : Type} (v : VfsCalls σ)

def new (storage : Nat → UInt8) (capacity : Nat) (s : σ) : Session σ :=
  ⟨.new storage capacity, s, [], [], false, true⟩

def step (s : Session σ) : Call → Session σ
  | .key event =>
    let r := s.model.handleKey event
    { s with model := r.2
             warned := if event.pressed then
                 isCtrlQ event && r.1 = .none && r.2.status = unsavedWarning
               else s.warned }
  | .save =>
    let r := s.model.saveFile v s.vfs
    { s with model := r.2.1, vfs := r.2.2
             baseline := if r.1 = .ok then s.model.text else s.baseline, warned := false }
  | .init path data fileExists =>
    let r := s.model.init path data fileExists
    if r.1 then
      { s with model := r.2, baseline := data, openedPath := (path.getD []).takeWhile (· ≠ 0)
               warned := false, intact := true }
    else { s with model := r.2 }
  | .openFile path =>
    let r := s.model.openFile v path s.vfs
    if r.1 = .ok then
      { model := r.2.1, vfs := r.2.2, baseline := r.2.1.text
        openedPath := (path.getD []).takeWhile (· ≠ 0), warned := false, intact := true }
    else
      { s with model := r.2.1, vfs := r.2.2, intact := s.intact && r.2.1.text = s.model.text }

def run (s : Session σ) (calls : List Call) : Session σ := calls.foldl (step v) s

/-- Every `open_file` of the run returns Ok: it is a re-initialisation. -/
def OpensSucceed (s : Session σ) : List Call → Prop
  | [] => True
  | call :: rest =>
    (∀ path, call = .openFile path → (s.model.openFile v path s.vfs).1 = .ok) ∧ OpensSucceed (s.step v call) rest

structure Inv (s : Session σ) : Prop where
  path : s.model.path = s.openedPath
  opened : s.model.started = true → validPath s.openedPath = true ∧
    s.openedPath.takeWhile (· ≠ 0) = s.openedPath ∧ textCapacity ≤ s.model.capacity
  pending : s.model.forcedQuitPending = true → s.model.started = true ∧ s.warned = true
  valid : s.intact = true → s.model.Valid
  clean : s.intact = true → s.model.modified = false → s.model.text = s.baseline

theorem inv_new (storage : Nat → UInt8) (capacity : Nat) (s : σ) : Inv (new storage capacity s) where
  path := rfl
  opened := fun h => by cases h
  pending := fun h => by cases h
  valid := fun _ => ⟨Nat.le_refl _, Nat.zero_le _, fun i hi => absurd hi (Nat.not_lt_zero i)⟩
  clean := fun _ _ => rfl

variable {s : Session σ}

theorem intact_run : ∀ (calls : List Call) {s : Session σ}, s.OpensSucceed v calls → s.intact = true →
    (s.run v calls).intact = true
  | [], _, _, h => h
  | call :: rest, s, hopens, h => by
    refine intact_run rest hopens.2 ?_
    cases call with
    | key event => exact h
    | save => exact h
    | init path data fileExists =>
      rw [step]
      split
      · rfl
      · exact h
    | openFile path =>
      rw [step, if_pos (hopens.1 path rfl)]

theorem text_congr {m m' : EditorModel} (hs : m'.storage = m.storage) (hl : m'.length = m.length) :
    m'.text = m.text := by
  rw [EditorModel.text, hs, hl]
  rfl

theorem Inv.same (h : Inv s) {m' : EditorModel} {b w : Bool}
    (hs : SameText { s.model with forcedQuitPending := b } m') (hc : m'.cursor = s.model.cursor)
    (hw : b = true → s.model.started = true ∧ w = true) :
    Inv { s with model := m', warned := w } := by
  refine ⟨?_, ?_, ?_, ?_, ?_⟩
  · show m'.path = s.openedPath
    rw [hs.path]
    exact h.path
  · show m'.started = true → _ ∧ _ ∧ textCapacity ≤ m'.capacity
    rw [hs.started, hs.capacity]
    exact h.opened
  · show m'.forcedQuitPending = true → m'.started = true ∧ w = true
    rw [hs.pending, hs.started]
    exact hw
  · intro hi
    have hv := h.valid hi
    exact hs.valid ⟨hv.cursor, hv.length, hv.supported⟩ (by rw [hc]; exact hv.cursor)
  · show _ → m'.modified = false → m'.text = s.baseline
    rw [hs.modified, text_congr hs.storage hs.length]
    exact h.clean

theorem Inv.key (h : Inv s) (event : KeyEvent) : Inv (s.step v (.key event)) := by
  have ho := handleKey_outcome s.model event
  rw [step]
  generalize s.model.handleKey event = r at ho
  cases ho with
  | ignored hguard =>
    refine ⟨h.path, h.opened, ?_, h.valid, h.clean⟩
    intro hpending
    obtain ⟨hstarted, hwarned⟩ := h.pending hpending
    refine ⟨hstarted, ?_⟩
    rcases hguard with hguard | hguard
    · rw [hstarted] at hguard
      cases hguard
    · rw [hguard]
      exact hwarned
  | save hp hq hs hc => exact h.same hs hc (fun hb => by cases hb)
  | cleanQuit hp hq hmod hs hc => exact h.same hs hc (fun hb => by cases hb)
  | forcedQuit hp hq hmod hpending hs hc => exact h.same hs hc (fun hb => by cases hb)
  | warning hp hq hst hmod hs hc hstatus =>
    apply h.same hs hc
    intro _
    refine ⟨hst, ?_⟩
    simp [hp, hq, hstatus]
  | edit hp hq he =>
    refine ⟨he.path.trans h.path, ?_, ?_, ?_, ?_⟩
    · intro hstarted
      have hold := h.opened (he.started.symm.trans hstarted)
      exact ⟨hold.1, hold.2.1, hold.2.2.trans_eq he.capacity.symm⟩
    · intro hpending
      rw [he.pending] at hpending
      cases hpending
    · intro hi
      have hv := h.valid hi
      exact he.valid ⟨hv.cursor, hv.length, hv.supported⟩
    · intro hi hmod
      rcases he.kept with hk | ⟨hk, htext⟩
      · rw [hk] at hmod
        cases hmod
      · rw [htext]
        exact h.clean hi (hk.symm.trans hmod)

theorem Inv.save (h : Inv s) : Inv (s.step v .save) := by
  rw [step, saveFile]
  have hstarted : ∀ {m' : EditorModel}, m'.forcedQuitPending = false →
      m'.forcedQuitPending = true → m'.started = true ∧ false = true := by
    intro m' hf ht
    rw [hf] at ht
    cases ht
  split
  · refine ⟨h.path, h.opened, hstarted rfl, ?_, ?_⟩
    · intro hi
      have hv := h.valid hi
      exact ⟨hv.cursor, hv.length, hv.supported⟩
    · intro _ _
      rfl
  · refine ⟨h.path, h.opened, hstarted rfl, ?_, ?_⟩
    · intro hi
      have hv := h.valid hi
      exact ⟨hv.cursor, hv.length, hv.supported⟩
    · intro _ hmod
      cases hmod

theorem inv_opened {m : EditorModel} {path text : List UInt8} (ho : Opened m path text) (vfs : σ)
    (w i : Bool) : Inv ⟨m, vfs, text, path, w, i⟩ where
  path := ho.path
  opened := fun _ => ⟨ho.pathOk, ho.noNul, ho.capacity⟩
  pending := by
    intro hp
    have hf : m.forcedQuitPending = true := hp
    rw [ho.pending] at hf
    cases hf
  valid := fun _ => ho.valid
  clean := fun _ _ => ho.text

theorem Inv.init (h : Inv s) (path : Option (List UInt8)) (data : List UInt8) (fileExists : Bool) :
    Inv (s.step v (.init path data fileExists)) := by
  rw [step]
  rcases s.model.init_cases path data fileExists with heq | ⟨p, m', rfl, heq, ho⟩
  · rw [heq]
    exact h
  · rw [heq]
    exact inv_opened ho _ _ _

theorem Inv.openFile (h : Inv s) (path : Option (List UInt8)) :
    Inv (s.step v (.openFile path)) := by
  have ho := openFile_outcome v s.model path s.vfs
  rw [step]
  generalize s.model.openFile v path s.vfs = r at ho
  rcases ho with ⟨hok, text, ho⟩ | ⟨hne, storage, heq⟩
  · rw [if_pos hok, ho.text]
    exact inv_opened ho _ _ _
  · rw [if_neg hne]
    refine ⟨?_, ?_, ?_, ?_, ?_⟩
    · show r.2.1.path = s.openedPath
      rw [heq]
      exact h.path
    · show r.2.1.started = true → _ ∧ _ ∧ textCapacity ≤ r.2.1.capacity
      rw [heq]
      exact h.opened
    · show r.2.1.forcedQuitPending = true → r.2.1.started = true ∧ s.warned = true
      rw [heq]
      exact h.pending
    · intro hi
      simp only [Bool.and_eq_true, decide_eq_true_eq] at hi
      have hv := h.valid hi.1
      have htext := hi.2
      rw [heq] at htext
      have hbytes := List.map_inj_left.mp htext
      show r.2.1.Valid
      rw [heq]
      refine ⟨hv.cursor, hv.length, ?_⟩
      intro i hlt
      rw [hbytes i (List.mem_range.mpr hlt)]
      exact hv.supported i hlt
    · intro hi
      simp only [Bool.and_eq_true, decide_eq_true_eq] at hi
      show r.2.1.modified = false → r.2.1.text = s.baseline
      rw [hi.2, heq]
      exact h.clean hi.1

theorem Inv.step (h : Inv s) (call : Call) : Inv (s.step v call) := by
  cases call with
  | key event => exact h.key v event
  | save => exact h.save v
  | init path data fileExists => exact h.init v path data fileExists
  | openFile path => exact h.openFile v path

theorem Inv.run (h : Inv s) (calls : List Call) : Inv (s.run v calls) := by
  induction calls generalizing s with
  | nil => exact h
  | cons call calls ih => exact ih (h.step v call)

end Session

section working

variable {σ : Type}

/-- A volume that works: what `write_file` has stored is found, and read in one or more pieces. -/
structure Working (v : VfsCalls σ) (Holds : σ → List UInt8 → List UInt8 → Prop)
    (Reading : σ → Int → List UInt8 → Prop) : Prop where
  write : ∀ s path data, (v.writeFile path data s).1 = .ok →
    Holds (v.writeFile path data s).2 path data
  stat : ∀ s path data, Holds s path data →
    (v.stat path s).1 = .ok ⟨false, data.length⟩ ∧ Holds (v.stat path s).2 path data
  openFile : ∀ s path data, Holds s path data →
    ∃ fd, (v.openFile path s).1 = .ok fd ∧ Reading (v.openFile path s).2 fd data
  read : ∀ s fd data n, Reading s fd data → 0 < n → data ≠ [] →
    ∃ k, 0 < k ∧ k ≤ n ∧ k ≤ data.length ∧ (v.read fd n s).1 = ⟨.ok, data.take k, k⟩ ∧
      Reading (v.read fd n s).2 fd (data.drop k)
  close : ∀ s fd data, Reading s fd data → (v.close fd s).1 = .ok

namespace EditorModel

variable {v : VfsCalls σ} {Holds : σ → List UInt8 → List UInt8 → Prop}
  {Reading : σ → Int → List UInt8 → Prop} (hw : Working v Holds Reading)
include hw

theorem readLoop_all {fd : Int} {size : Nat} (left : Nat) {offset : Nat} (storage : Nat → UInt8)
    {s : σ} {data : List UInt8} (hr : Reading s fd data) (hsize : offset + data.length = size)
    (hleft : data.length ≤ left) :
    (readLoop v fd size left offset storage s).1 = .ok ∧
      (∃ rest, Reading (readLoop v fd size left offset storage s).2.2 fd rest) ∧
      ∀ i, (readLoop v fd size left offset storage s).2.1 i =
        if offset ≤ i ∧ i < size then data.getD (i - offset) 0 else storage i := by
  induction left generalizing offset storage s data with
  | zero =>
    have hlen : data.length = 0 := by omega
    rw [readLoop]
    refine ⟨rfl, ⟨data, hr⟩, ?_⟩
    intro i
    rw [if_neg (by omega)]
  | succ left ih =>
    rw [readLoop]
    by_cases hlt : offset < size
    · have hne : data ≠ [] := by
        rintro rfl
        simp only [List.length_nil] at hsize
        omega
      obtain ⟨k, hk0, hkn, hkl, hread, hnext⟩ := hw.read s fd data (size - offset) hr (by omega) hne
      rw [if_pos hlt]
      simp only [hread, ne_eq, not_true_eq_false, if_false]
      rw [if_neg (by omega)]
      have hsize' : offset + k + (data.drop k).length = size := by
        rw [List.length_drop]
        omega
      have hrec := ih (writeBytes storage offset ((data.take k).take (size - offset))) hnext hsize'
        (by rw [List.length_drop]; omega)
      refine ⟨hrec.1, hrec.2.1, ?_⟩
      intro i
      rw [hrec.2.2 i, writeBytes]
      have hlen : ((data.take k).take (size - offset)).length = k := by
        rw [List.length_take, List.length_take]
        omega
      rw [hlen]
      by_cases hin : offset + k ≤ i ∧ i < size
      · rw [if_pos hin, if_pos (by omega)]
        simp only [List.getD_eq_getElem?_getD, List.getElem?_drop]
        congr 2
        omega
      · rw [if_neg hin]
        by_cases hhere : offset ≤ i ∧ i < offset + k
        · rw [if_pos hhere, if_pos (by omega)]
          simp only [List.getD_eq_getElem?_getD, List.getElem?_take]
          rw [if_pos (by omega), if_pos (by omega)]
        · rw [if_neg hhere, if_neg (by omega)]
    · rw [if_neg hlt]
      refine ⟨rfl, ⟨data, hr⟩, ?_⟩
      intro i
      rw [if_neg (by omega)]

theorem openFile_holds (m : EditorModel) {s : σ} {path data : List UInt8}
    (hh : Holds s path data) (hpath : validPath path = true)
    (hnul : path.takeWhile (· ≠ 0) = path) (hcap : textCapacity ≤ m.capacity)
    (hlen : data.length ≤ textCapacity) (hsup : ∀ byte ∈ data, supportedTextByte byte = true) :
    (m.openFile v (some path) s).1 = .ok ∧ (m.openFile v (some path) s).2.1.text = data := by
  have hne : path ≠ [] := by
    rintro rfl
    revert hpath
    decide
  obtain ⟨hstat, hheld⟩ := hw.stat s path data hh
  obtain ⟨fd, hopen, hreading⟩ := hw.openFile _ path data hheld
  obtain ⟨hok, ⟨rest, hrest⟩, hbytes⟩ := readLoop_all hw data.length m.storage hreading
    (Nat.zero_add _) (Nat.le_refl _)
  have hclose := hw.close _ fd rest hrest
  have hopenFile : m.openFile v (some path) s = m.load v path data.length (v.stat path s).2 := by
    rw [openFile, Option.map_some, hnul]
    cases path with
    | nil => exact absurd rfl hne
    | cons b path =>
      dsimp only
      generalize v.stat (b :: path) s = r at hstat ⊢
      obtain ⟨result, s'⟩ := r
      simp only at hstat
      subst hstat
      simp only [Bool.false_eq_true, if_false]
      rw [if_neg (by omega), if_neg (by omega)]
  rw [hopenFile, load]
  generalize v.openFile path (v.stat path s).2 = r at hopen hok hbytes hclose
  obtain ⟨result, s'⟩ := r
  simp only at hopen
  subst hopen
  simp only [hok, if_true, hclose, finishLoad, ne_eq, not_true_eq_false, if_false]
  generalize hst : (readLoop v fd data.length data.length 0 m.storage s').2.1 = storage
  have htext : (List.range data.length).map storage = data := by
    apply List.ext_getElem
    · simp
    · intro i hi hi'
      simp only [List.getElem_map, List.getElem_range]
      rw [← hst, hbytes i, if_pos ⟨Nat.zero_le _, hi'⟩]
      simp [hi']
  rcases initFromStorage_cases { m with storage := storage } path data.length true with
    heq | ⟨m', heq, ho⟩
  · -- every check of the initialisation passes
    exfalso
    have hb : ((List.range data.length).map storage).any (fun byte => !supportedTextByte byte) =
        false := by
      rw [htext, List.any_eq_false]
      intro byte hbyte
      simp [hsup byte hbyte]
    have hval : (!validPath path) = false := by rw [hpath]; rfl
    rw [initFromStorage, if_neg (by simp only; omega)] at heq
    simp only [hval, hb, Bool.false_eq_true, if_false, Prod.mk.injEq] at heq
    cases heq.1
  · rw [heq]
    exact ⟨rfl, ho.text.trans htext⟩

end EditorModel

end working

/-- Over every sequence of calls, whatever the VFS answers: an unsaved text is only left after the
warning, an unmodified text is the one loaded or saved, and a save writes the text to the path the
editor was opened with, where a working volume gives it back. Keys, saves, initialisations and each
`open_file` that returns Ok leave the buffer intact. -/
theorem editor_runs {σ : Type} (v : VfsCalls σ) (storage : Nat → UInt8) (capacity : Nat) (s₀ : σ)
    (calls : List Call) :
    let s := (Session.new storage capacity s₀).run v calls
    (s.intact = true → ∀ event, (s.model.handleKey event).1 = .quit → s.model.text ≠ s.baseline →
      s.warned = true ∧ EditorModel.isCtrlQ event = true ∧ event.pressed = true) ∧
    (s.intact = true → s.model.modified = false → s.model.text = s.baseline) ∧
    ((s.model.saveFile v s.vfs).1 = (v.writeFile s.openedPath s.model.text s.vfs).1 ∧
      (s.model.saveFile v s.vfs).2.2 = (v.writeFile s.openedPath s.model.text s.vfs).2) ∧
    (s.intact = true → s.model.started = true → ∀ Holds Reading, Working v Holds Reading →
      (s.model.saveFile v s.vfs).1 = .ok → ∀ m : EditorModel, textCapacity ≤ m.capacity →
      (m.openFile v (some s.openedPath) (s.model.saveFile v s.vfs).2.2).1 = .ok ∧
        (m.openFile v (some s.openedPath) (s.model.saveFile v s.vfs).2.2).2.1.text =
          s.model.text) ∧
    ((Session.new storage capacity s₀).OpensSucceed v calls → s.intact = true) := by
  have hintact := fun hopens => Session.intact_run (v := v) calls (s := Session.new storage capacity s₀) hopens rfl
  have h := (Session.inv_new storage capacity s₀).run v calls
  intro s
  change Session.Inv s at h
  change _ → s.intact = true at hintact
  clear_value s
  have hsave : (s.model.saveFile v s.vfs).1 = (v.writeFile s.openedPath s.model.text s.vfs).1 ∧
      (s.model.saveFile v s.vfs).2.2 = (v.writeFile s.openedPath s.model.text s.vfs).2 := by
    rw [EditorModel.saveFile, h.path]
    generalize v.writeFile s.openedPath s.model.text s.vfs = r
    obtain ⟨status, s'⟩ := r
    cases status <;> exact ⟨rfl, rfl⟩
  refine ⟨?_, h.clean, hsave, ?_, hintact⟩
  · intro hi event hquit hdiff
    have ho := EditorModel.handleKey_outcome s.model event
    generalize s.model.handleKey event = r at ho hquit
    cases ho with
    | ignored => cases hquit
    | save => cases hquit
    | cleanQuit hp hq hmod => exact absurd (h.clean hi hmod) hdiff
    | forcedQuit hp hq hmod hpending => exact ⟨(h.pending hpending).2, hq, hp⟩
    | warning => cases hquit
    | edit => cases hquit
  · intro hi hstarted Holds Reading hw hok m hcap
    rw [hsave.1] at hok
    rw [hsave.2]
    obtain ⟨hpath, hnul, -⟩ := h.opened hstarted
    have hv := h.valid hi
    apply m.openFile_holds hw (hw.write _ _ _ hok) hpath hnul hcap
    · rw [EditorModel.text, List.length_map, List.length_range]
      exact hv.length
    · intro byte hbyte
      obtain ⟨i, hlt, rfl⟩ := List.mem_map.mp hbyte
      exact hv.supported i (List.mem_range.mp hlt)

structure Memory where
  path : List UInt8
  data : List UInt8
  offset : Nat
  deriving DecidableEq

def memoryVfs : VfsCalls Memory where
  stat := fun path s =>
    (if path = s.path then .ok ⟨false, s.data.length⟩ else .error ⟨.notFound, by decide⟩, s)
  openFile := fun path s =>
    if path = s.path then (.ok 3, { s with offset := 0 }) else (.error ⟨.notFound, by decide⟩, s)
  read := fun _ n s =>
    let bytes := (s.data.drop s.offset).take n
    (⟨.ok, bytes, bytes.length⟩, { s with offset := s.offset + bytes.length })
  close := fun _ s => (.ok, s)
  writeFile := fun path data _ => (.ok, ⟨path, data, 0⟩)

theorem memoryVfs_working :
    Working memoryVfs (fun s path data => s.path = path ∧ s.data = data)
      (fun s _ rest => rest = s.data.drop s.offset) where
  write := fun _ _ _ _ => ⟨rfl, rfl⟩
  stat := by
    rintro s path data ⟨rfl, rfl⟩
    exact ⟨by simp [memoryVfs], rfl, rfl⟩
  openFile := by
    rintro s path data ⟨rfl, rfl⟩
    exact ⟨3, by simp [memoryVfs], by simp [memoryVfs]⟩
  read := by
    rintro s fd data n rfl hn hne
    have hlen : 0 < (s.data.drop s.offset).length := List.length_pos_iff.mpr hne
    refine ⟨((s.data.drop s.offset).take n).length, ?_, ?_, ?_, ?_, ?_⟩
    · rw [List.length_take]
      omega
    · rw [List.length_take]
      omega
    · rw [List.length_take]
      omega
    · simp [memoryVfs]
    · simp only [memoryVfs, List.drop_drop]
  close := fun _ _ _ _ => rfl

theorem editor_runs_memory :
    let s := (Session.new (fun _ => 0) textCapacity (Memory.mk [] [] 0)).run memoryVfs
      [.init (some (ascii "A.TXT")) (ascii "b") false, .key ⟨.character, 'c'.toUInt8, false, false, true⟩]
    ((EditorModel.new (fun _ => 0) textCapacity).openFile memoryVfs (some (ascii "A.TXT"))
      (s.model.saveFile memoryVfs s.vfs).2.2).2.1.text = ascii "bc" := by
  have h := editor_runs memoryVfs (fun _ => 0) textCapacity (Memory.mk [] [] 0)
    [.init (some (ascii "A.TXT")) (ascii "b") false, .key ⟨.character, 'c'.toUInt8, false, false, true⟩]
  have hback := (h.2.2.2.1 (by decide +kernel) (by decide +kernel) _ _ memoryVfs_working
    (by decide +kernel) (EditorModel.new (fun _ => 0) textCapacity) (Nat.le_refl _)).2
  exact hback.trans (by decide +kernel)

/-- A volume whose only file is one byte long and fails to read after that byte. -/
def failingVfs : VfsCalls Unit where
  stat := fun _ s => (.ok ⟨false, 1⟩, s)
  openFile := fun _ s => (.ok 3, s)
  read := fun _ _ s => (⟨.ioError, ascii "x", 0⟩, s)
  close := fun _ s => (.ok, s)
  writeFile := fun _ _ s => (.ioError, s)

theorem failed_open_changes_text :
    let s := (Session.new (fun _ => 0) textCapacity ()).run failingVfs
      [.init (some (ascii "A.TXT")) (ascii "ab") true, .openFile (some (ascii "B.TXT"))]
    s.model.modified = false ∧ s.baseline = ascii "ab" ∧ s.model.text = ascii "xb" ∧
      (s.model.handleKey ⟨.character, 'q'.toUInt8, true, false, true⟩).1 = .quit ∧
      s.warned = false := by
  decide +kernel

end Linux95.Gui.Editor
