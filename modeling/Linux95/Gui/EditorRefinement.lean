import Linux95.Gui.EditorText

/-! The editor refines a text with a position: over any sequence of operations its model holds the document that they
make, its rows partition the text, and its window shows the cursor. -/

namespace Linux95.Gui.Editor
open Base EditorModel

structure Refines (m : EditorModel) (d : Document) : Prop where
  started : m.started = true
  text : m.text = d.text
  cursor : m.cursor = d.cursor
  wanted : m.desiredColumn = d.wanted
  sound : d.Sound

namespace Refines

variable {m : EditorModel} {d : Document}

theorem length (h : Refines m d) : m.length = d.text.length := by rw [← h.text, length_text]

theorem cursor_le (h : Refines m d) : m.cursor ≤ m.length := by
  rw [h.length, h.cursor]
  exact h.sound.cursor

theorem location (h : Refines m d) : m.cursorLocation = (d.row, d.column) := by
  rw [cursorLocation_eq h.cursor_le, h.text, h.cursor]
  rfl

theorem settle {m : EditorModel} {d : Document} (hstarted : m.started = true) (htext : m.text = d.text)
    (hcursor : m.cursor = d.cursor) (hle : d.cursor ≤ d.text.length) (hlength : d.text.length ≤ textCapacity)
    (hsupported : ∀ byte ∈ d.text, supportedTextByte byte = true) : Refines m.resetDesiredColumn d.settle := by
  have hlocation : m.cursorLocation = place 0x0A (d.text.take d.cursor) := by
    rw [cursorLocation_eq, htext, hcursor]
    rw [← length_text, htext, hcursor]
    exact hle
  exact ⟨hstarted, htext, hcursor, congrArg Prod.snd hlocation, .settle hle hlength hsupported⟩

theorem insertByte (h : Refines m d) {byte : UInt8} (hbyte : supportedTextByte byte = true)
    (hroom : d.text.length < textCapacity) : Refines (m.insertByte byte) (d.type byte) := by
  have hle := h.sound.cursor
  refine settle h.started ?_ (congrArg (· + 1) h.cursor) ?_ ?_ ?_
  · rw [← h.text, ← h.cursor]
    exact text_insertByte h.cursor_le byte
  · change d.cursor + 1 ≤ (d.text.take d.cursor ++ byte :: d.text.drop d.cursor).length
    rw [List.length_append, List.length_cons, List.length_take, List.length_drop]
    omega
  · rw [List.length_append, List.length_cons, List.length_take, List.length_drop]
    omega
  · intro byte' hmem
    rcases List.mem_append.mp hmem with hin | hin
    · exact h.sound.supported byte' (List.mem_of_mem_take hin)
    · rcases List.mem_cons.mp hin with rfl | hin
      · exact hbyte
      · exact h.sound.supported byte' (List.mem_of_mem_drop hin)

theorem backspace (h : Refines m d) (hcursor : d.cursor ≠ 0) : Refines m.backspace.2 d.erase := by
  have hle := h.sound.cursor
  have hlt := h.sound.length
  have hmodel : m.backspace.2 = { m with storage := shiftDown m.length m.length (m.cursor - 1) m.storage
                                         cursor := m.cursor - 1, length := m.length - 1
                                         modified := true }.resetDesiredColumn := by
    unfold EditorModel.backspace
    rw [if_neg (by simp [h.started, h.cursor, hcursor])]
  have htext := text_backspace h.started h.cursor_le (by rw [h.cursor]; exact hcursor)
  rw [hmodel] at htext ⊢
  refine settle h.started (htext.trans ?_) (congrArg (· - 1) h.cursor) ?_ ?_ ?_
  · rw [h.text, h.cursor]
  · change d.cursor - 1 ≤ (d.text.eraseIdx (d.cursor - 1)).length
    rw [List.length_eraseIdx_of_lt (by omega)]
    omega
  · rw [List.length_eraseIdx_of_lt (by omega)]
    omega
  · exact fun byte hmem => h.sound.supported byte (List.mem_of_mem_eraseIdx hmem)

theorem moveToLine (h : Refines m d) (row : Nat) : Refines (m.moveToLine row) (d.aim row) := by
  have hbounds := lineBounds_eq h.started row
  rw [h.text] at hbounds
  unfold EditorModel.moveToLine
  rw [hbounds]
  cases hline : d.lines[row]? with
  | none =>
    rw [show (d.text.splitOn 0x0A)[row]? = none from hline, Document.aim_none hline]
    exact h
  | some line =>
    have hsound := h.sound.aim row
    rw [show (d.text.splitOn 0x0A)[row]? = some line from hline]
    rw [Document.aim_some hline] at hsound ⊢
    refine ⟨h.started, h.text, ?_, h.wanted, hsound⟩
    simp only [Option.map_some, Nat.add_sub_cancel_left, h.wanted]
    congr 1
    split <;> omega

theorem moveUp (h : Refines m d) : Refines m.moveUp d.up := by
  unfold EditorModel.moveUp Document.up
  rw [h.location, if_neg (by simp [h.started])]
  dsimp only
  split
  · exact h
  · exact h.moveToLine _

theorem moveDown (h : Refines m d) : Refines m.moveDown d.down := by
  unfold EditorModel.moveDown Document.down
  rw [h.location, if_neg (by simp [h.started]), lineCount_eq, h.text]
  dsimp only
  split
  · rename_i hlast
    rw [Document.aim_none (List.getElem?_eq_none hlast)]
    exact h
  · exact h.moveToLine _

theorem moveLeft (h : Refines m d) : Refines m.moveLeft { d with cursor := d.cursor - 1 }.settle := by
  have hle := h.sound.cursor
  unfold EditorModel.moveLeft
  by_cases hcursor : m.cursor = 0
  · rw [if_neg (by simp [hcursor])]
    refine settle h.started h.text ?_ (show d.cursor - 1 ≤ d.text.length by omega) h.sound.length h.sound.supported
    rw [h.cursor] at hcursor ⊢
    change d.cursor = d.cursor - 1
    omega
  · rw [if_pos (by simp [h.started, hcursor])]
    exact settle h.started h.text (congrArg (· - 1) h.cursor) (show d.cursor - 1 ≤ d.text.length by omega)
      h.sound.length h.sound.supported

theorem moveRight (h : Refines m d) :
    Refines m.moveRight { d with cursor := min (d.cursor + 1) d.text.length }.settle := by
  have hle := h.sound.cursor
  have hcursor := h.cursor
  have hlength := h.length
  have hmin : min (d.cursor + 1) d.text.length ≤ d.text.length := Nat.min_le_right _ _
  unfold EditorModel.moveRight
  by_cases hend : m.cursor < m.length
  · rw [if_pos (by simp [h.started, hend])]
    refine settle h.started h.text ?_ hmin h.sound.length h.sound.supported
    change m.cursor + 1 = min (d.cursor + 1) d.text.length
    omega
  · rw [if_neg (by simp [hend])]
    refine settle h.started h.text ?_ hmin h.sound.length h.sound.supported
    change m.cursor = min (d.cursor + 1) d.text.length
    omega

theorem viewport (h : Refines m d) (visibleRows visibleColumns : Nat) :
    Refines (m.updateViewport visibleRows visibleColumns) d := by
  unfold updateViewport
  split
  · exact h
  · exact ⟨h.started, h.text, h.cursor, h.wanted, h.sound⟩

theorem exec (h : Refines m d) (op : EditorOp) :
    (op.exec m).1 = (op.edit d).1 ∧ Refines (op.exec m).2 (op.edit d).2 := by
  have hlength := h.length
  have hle := h.sound.length
  cases op with
  | insert byte =>
    dsimp only [EditorOp.exec, EditorOp.edit]
    unfold EditorModel.insert
    by_cases hbad : byte < 0x20 ∨ byte > 0x7E ∨ d.text.length = textCapacity
    · rw [if_pos hbad, if_pos]
      · exact ⟨rfl, h⟩
      · rcases hbad with hlow | hhigh | hfull
        · simp [hlow]
        · simp [hhigh]
        · simp [hlength, hfull]
    · obtain ⟨hlow, hbad⟩ := not_or.mp hbad
      obtain ⟨hhigh, hfull⟩ := not_or.mp hbad
      rw [if_neg (by simp [h.started, hlow, hhigh]; omega), if_neg (by simp [hlow, hhigh, hfull])]
      · refine ⟨rfl, h.insertByte ?_ (by omega)⟩
        unfold supportedTextByte
        rw [decide_eq_true (UInt8.not_lt.mp hlow), decide_eq_true (UInt8.not_lt.mp hhigh), Bool.and_true, Bool.or_true]
  | newline =>
    dsimp only [EditorOp.exec, EditorOp.edit]
    unfold insertNewline
    by_cases hfull : d.text.length = textCapacity
    · rw [if_pos hfull, if_pos (by simp [hlength, hfull])]
      exact ⟨rfl, h⟩
    · rw [if_neg hfull, if_neg (by simp [h.started, hlength]; omega)]
      exact ⟨rfl, h.insertByte rfl (by omega)⟩
  | backspace =>
    dsimp only [EditorOp.exec, EditorOp.edit]
    by_cases hcursor : d.cursor = 0
    · unfold EditorModel.backspace
      rw [if_pos hcursor, if_pos (by simp [h.cursor, hcursor])]
      exact ⟨rfl, h⟩
    · rw [if_neg hcursor]
      refine ⟨?_, h.backspace hcursor⟩
      unfold EditorModel.backspace
      rw [if_neg (by simp [h.started, h.cursor, hcursor])]
  | left => exact ⟨rfl, h.moveLeft⟩
  | right => exact ⟨rfl, h.moveRight⟩
  | up => exact ⟨rfl, h.moveUp⟩
  | down => exact ⟨rfl, h.moveDown⟩
  | viewport visibleRows visibleColumns => exact ⟨rfl, h.viewport visibleRows visibleColumns⟩

end Refines

inductive Initialised : EditorModel → List UInt8 → Prop
  | init {m m' : EditorModel} {path : Option (List UInt8)} {data : List UInt8} {fileExists : Bool}
      (h : m.init path data fileExists = (true, m')) : Initialised m' data
  | storage {m m' : EditorModel} {path : Option (List UInt8)} {length : Nat} {fileExists : Bool}
      (h : m.initFromStorage path length fileExists = (true, m')) :
      Initialised m' ((List.range length).map m.storage)

namespace Initialised

theorem begin {m : EditorModel} {path path' text : List UInt8} {length : Nat} {fileExists : Bool}
    (h : Opened (m.begin path length fileExists) path' text) (hlength : text.length = length) :
    Refines (m.begin path length fileExists) (.opened text) := by
  have hle := h.valid.length
  change length ≤ textCapacity at hle
  refine Refines.settle rfl h.text hlength.symm (Nat.le_refl _) (hlength ▸ hle) fun byte hmem => ?_
  dsimp only at hmem
  rw [← h.text] at hmem
  obtain ⟨i, hi, rfl⟩ := List.mem_map.mp hmem
  exact h.valid.supported i (List.mem_range.mp hi)

theorem refines {m : EditorModel} {text : List UInt8} (h : Initialised m text) : Refines m (.opened text) := by
  cases h with
  | init h =>
    rename_i m₀ path fileExists
    rcases init_cases m₀ path text fileExists with heq | ⟨p, m', rfl, heq, hopened⟩
    · rw [heq] at h
      cases h
    · obtain rfl : m' = m := congrArg Prod.snd (heq.symm.trans h)
      unfold EditorModel.init at heq
      dsimp only at heq
      split at heq
      · cases heq
      split at heq
      · cases heq
      split at heq
      · cases heq
      obtain rfl := congrArg Prod.snd heq
      exact begin hopened rfl
  | storage h =>
    rename_i m₀ path length fileExists
    cases path with
    | none => cases h
    | some path =>
      rcases initFromStorage_cases m₀ path length fileExists with heq | ⟨m', heq, hopened⟩
      · rw [heq] at h
        cases h
      · obtain rfl : m' = m := congrArg Prod.snd (heq.symm.trans h)
        unfold EditorModel.initFromStorage at heq
        dsimp only at heq
        split at heq
        · cases heq
        split at heq
        · cases heq
        split at heq
        · cases heq
        obtain rfl := congrArg Prod.snd heq
        exact begin hopened (by rw [List.length_map, List.length_range])

end Initialised

section Rows
variable {m : EditorModel} {d : Document}

/-- The rows that `line_bounds` finds: no line feed inside one, one line feed between two, nothing outside. -/
structure Partitioned (m : EditorModel) : Prop where
  past : ∀ row, m.lineCount ≤ row → m.lineBounds row = none
  row : ∀ row < m.lineCount, ∃ lineBegin lineEnd, m.lineBounds row = some (lineBegin, lineEnd) ∧
    lineBegin ≤ lineEnd ∧ lineEnd ≤ m.length ∧ (∀ i, lineBegin ≤ i → i < lineEnd → m.storage i ≠ 0x0A) ∧
    (row = 0 → lineBegin = 0) ∧ (row + 1 = m.lineCount → lineEnd = m.length) ∧
    (row + 1 < m.lineCount → m.storage lineEnd = 0x0A ∧ ∃ next, m.lineBounds (row + 1) = some (lineEnd + 1, next))

theorem partitioned (hstarted : m.started = true) : Partitioned m := by
  refine ⟨fun row hrow => ?_, fun row hrow => ?_⟩
  · rw [lineCount_eq] at hrow
    rw [lineBounds_eq hstarted, List.getElem?_eq_none hrow]
    rfl
  · rw [lineCount_eq] at hrow ⊢
    have hline : (m.text.splitOn 0x0A)[row]? = some (m.text.splitOn 0x0A)[row] := List.getElem?_eq_getElem hrow
    generalize (m.text.splitOn 0x0A)[row] = line at hline
    obtain ⟨hmem, rest, hdrop, hrest⟩ := drop_lineStart hline
    have hinside := (place_lineStart hline (Nat.le_refl line.length)).1
    rw [length_text] at hinside
    have hlength := congrArg List.length hdrop
    rw [List.length_drop, List.length_append, length_text] at hlength
    have hbyte : ∀ j, m.text[lineStart (m.text.splitOn 0x0A) row + j]? = (line ++ rest)[j]? := by
      intro j
      rw [← hdrop, List.getElem?_drop]
    refine ⟨_, _, by rw [lineBounds_eq hstarted, hline]; rfl, Nat.le_add_right _ _, hinside, ?_, ?_, ?_, ?_⟩
    · intro i hfirst hlast hfeed
      have hi := hbyte (i - lineStart (m.text.splitOn 0x0A) row)
      rw [Nat.add_sub_cancel' hfirst, getElem?_text, if_pos (by omega), List.getElem?_append_left (by omega), hfeed] at hi
      exact hmem (List.mem_of_getElem? hi.symm)
    · rintro rfl
      rfl
    · intro hlast
      rcases hrest with ⟨rfl, -⟩ | ⟨-, hnext⟩
      · rw [List.length_nil] at hlength
        omega
      · omega
    · intro hnext
      rcases hrest with ⟨-, hlast⟩ | ⟨⟨rest', rfl⟩, -⟩
      · omega
      · have hfeed := hbyte line.length
        rw [List.getElem?_append_right (Nat.le_refl _), Nat.sub_self, List.getElem?_cons_zero, getElem?_text] at hfeed
        rw [List.length_cons] at hlength
        rw [if_pos (by omega)] at hfeed
        have hbounds := lineBounds_eq hstarted (row + 1)
        rw [List.getElem?_eq_getElem hnext, lineStart_succ hline] at hbounds
        exact ⟨Option.some.inj hfeed, _, hbounds⟩

end Rows

theorem Refines.window {m : EditorModel} {d : Document} (h : Refines m d) {visibleRows visibleColumns : Nat}
    (hrows : 0 < visibleRows) (hcolumns : 0 < visibleColumns) :
    let m' := m.updateViewport visibleRows visibleColumns
    (m'.viewportTopLine ≤ d.row ∧ d.row < m'.viewportTopLine + visibleRows) ∧
    (m'.viewportLeftColumn ≤ d.column ∧ d.column < m'.viewportLeftColumn + visibleColumns) ∧
    m'.viewportTopLine ≤ m.lineCount - visibleRows := by
  have hrow : d.row < m.lineCount := by
    rw [lineCount_eq, h.text]
    exact h.sound.row_lt
  have hmodel : m.updateViewport visibleRows visibleColumns = { m with
      viewportTopLine :=
        if (if d.row < m.viewportTopLine then d.row
          else if d.row - m.viewportTopLine ≥ visibleRows then d.row - visibleRows + 1
          else m.viewportTopLine) > (if m.lineCount > visibleRows then m.lineCount - visibleRows else 0)
        then (if m.lineCount > visibleRows then m.lineCount - visibleRows else 0)
        else if d.row < m.viewportTopLine then d.row
          else if d.row - m.viewportTopLine ≥ visibleRows then d.row - visibleRows + 1
          else m.viewportTopLine
      viewportLeftColumn :=
        if d.column < m.viewportLeftColumn then d.column
        else if d.column - m.viewportLeftColumn ≥ visibleColumns then d.column - visibleColumns + 1
        else m.viewportLeftColumn } := by
    unfold updateViewport
    rw [if_neg (by simp [h.started]; omega), h.location]
  rw [hmodel]
  refine ⟨?_, ?_, ?_⟩
  -- the second clamp lowers the top line at most to the one that still shows the last row
  · dsimp only
    split_ifs <;> omega
  · dsimp only
    split_ifs <;> omega
  · dsimp only
    split_ifs <;> omega

theorem EditorOp.edit_false {d : Document} {op : EditorOp} (h : (op.edit d).1 = false) : (op.edit d).2 = d := by
  cases op with
  | insert byte =>
    dsimp only [EditorOp.edit] at h ⊢
    split at h
    · rw [if_pos ‹_›]
    · cases h
  | newline =>
    dsimp only [EditorOp.edit] at h ⊢
    split at h
    · rw [if_pos ‹_›]
    · cases h
  | backspace =>
    dsimp only [EditorOp.edit] at h ⊢
    split at h
    · rw [if_pos ‹_›]
    · cases h
  | left => cases h
  | right => cases h
  | up => cases h
  | down => cases h
  | viewport visibleRows visibleColumns => cases h

namespace Refines

variable {m : EditorModel} {d : Document}

theorem run (h : Refines m d) (ops : List EditorOp) :
    Refines (ops.foldl (fun m op => (op.exec m).2) m) (ops.foldl (fun d op => (op.edit d).2) d) := by
  induction ops generalizing m d with
  | nil => exact h
  | cons op ops ih => exact ih (h.exec op).2

theorem up_iterate (h : Refines m d) (k : Nat) : Refines (EditorModel.moveUp^[k] m) (Document.up^[k] d) := by
  induction k with
  | zero => exact h
  | succ k ih =>
    rw [Function.iterate_succ_apply', Function.iterate_succ_apply']
    exact ih.moveUp

theorem down_iterate (h : Refines m d) (k : Nat) : Refines (EditorModel.moveDown^[k] m) (Document.down^[k] d) := by
  induction k with
  | zero => exact h
  | succ k ih =>
    rw [Function.iterate_succ_apply', Function.iterate_succ_apply']
    exact ih.moveDown

theorem column_eq (h : Refines m d) : ∃ lineBegin lineEnd, m.lineBounds m.cursorLocation.1 = some (lineBegin, lineEnd) ∧
    m.cursorLocation.2 = min m.desiredColumn (lineEnd - lineBegin) := by
  obtain ⟨line, hline, hcolumn⟩ := h.sound.column
  rw [lineBounds_eq h.started, h.location, h.text]
  rw [show (d.text.splitOn 0x0A)[d.row]? = some line from hline]
  exact ⟨_, _, rfl, by rw [Nat.add_sub_cancel_left, h.wanted]; exact hcolumn⟩

end Refines

/-- The editor after any operations on an initialised model. -/
theorem editor_model_refines {m₀ : EditorModel} {text : List UInt8} (h : Initialised m₀ text) (ops : List EditorOp) :
    let m := ops.foldl (fun m op => (op.exec m).2) m₀
    let d := ops.foldl (fun d op => (op.edit d).2) (.opened text)
    (m.text = d.text ∧ m.cursor = d.cursor ∧ m.cursorLocation = (d.row, d.column)) ∧
    (∀ op : EditorOp, (op.exec m).1 = (op.edit d).1 ∧
      ((op.exec m).1 = false → (op.exec m).2.text = m.text ∧ (op.exec m).2.cursor = m.cursor)) ∧
    (m.length ≤ textCapacity ∧ m.cursor ≤ m.length ∧ ∀ byte ∈ m.text, supportedTextByte byte = true) ∧
    (∃ lineBegin lineEnd, m.lineBounds m.cursorLocation.1 = some (lineBegin, lineEnd) ∧
      m.cursorLocation.2 = min m.desiredColumn (lineEnd - lineBegin)) ∧
    (∀ k ≤ m.cursorLocation.1, (moveDown^[k] (moveUp^[k] m)).cursor = m.cursor) ∧
    (∀ k, m.cursorLocation.1 + k < m.lineCount → (moveUp^[k] (moveDown^[k] m)).cursor = m.cursor) ∧
    Partitioned m ∧
    ∀ visibleRows visibleColumns, 0 < visibleRows → 0 < visibleColumns →
      let m' := m.updateViewport visibleRows visibleColumns
      (m'.viewportTopLine ≤ m.cursorLocation.1 ∧ m.cursorLocation.1 < m'.viewportTopLine + visibleRows) ∧
      (m'.viewportLeftColumn ≤ m.cursorLocation.2 ∧ m.cursorLocation.2 < m'.viewportLeftColumn + visibleColumns) ∧
      m'.viewportTopLine ≤ m.lineCount - visibleRows := by
  intro m d
  have hm : Refines m d := h.refines.run ops
  have hsupported := hm.sound.supported
  rw [← hm.text] at hsupported
  refine ⟨⟨hm.text, hm.cursor, hm.location⟩, fun op => ?_, ⟨?_, hm.cursor_le, hsupported⟩, hm.column_eq, ?_, ?_,
    partitioned hm.started, fun visibleRows visibleColumns hrows hcolumns => ?_⟩
  · obtain ⟨hanswer, hnext⟩ := hm.exec op
    refine ⟨hanswer, fun hfalse => ?_⟩
    rw [hnext.text, hnext.cursor, EditorOp.edit_false (hanswer.symm.trans hfalse)]
    exact ⟨hm.text.symm, hm.cursor.symm⟩
  · rw [hm.length]
    exact hm.sound.length
  · intro k hk
    rw [hm.location] at hk
    rw [((hm.up_iterate k).down_iterate k).cursor, hm.sound.down_up hk]
    exact hm.cursor.symm
  · intro k hk
    rw [hm.location, lineCount_eq, hm.text] at hk
    rw [((hm.down_iterate k).up_iterate k).cursor, hm.sound.up_down hk]
    exact hm.cursor.symm
  · rw [hm.location]
    exact hm.window hrows hcolumns

theorem editor_model_refines_two_lines :
    let m := [EditorOp.up, .backspace, .insert 99].foldl (fun m op => (op.exec m).2)
      ((new (fun _ => 0) textCapacity).init (some (ascii "A.TXT")) (ascii "a\nb") false).2
    m.text = ascii "c\nb" ∧ m.cursor = 1 :=
  have h := editor_model_refines (@Initialised.init (new (fun _ => 0) textCapacity) _ (some (ascii "A.TXT"))
    (ascii "a\nb") false (by rfl)) [.up, .backspace, .insert 99]
  ⟨h.1.1.trans (by rfl), h.1.2.1.trans (by rfl)⟩

end Linux95.Gui.Editor
