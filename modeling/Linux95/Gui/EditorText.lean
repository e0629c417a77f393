import Linux95.Base.TextLines
import Linux95.Gui.EditorRuns

/-! The text of the editor as a list with a position in it, and what the scans of `gui/editor_model.cpp` find in
the list. -/

namespace Linux95.Gui.Editor
open Base EditorModel

/-- A text, a position in it, and the column that moves up and down aim at. -/
structure Document where
  text : List UInt8
  cursor : Nat
  wanted : Nat

namespace Document

def lines (d : Document) : List (List UInt8) := d.text.splitOn 0x0A

def row (d : Document) : Nat := (place 0x0A (d.text.take d.cursor)).1

def column (d : Document) : Nat := (place 0x0A (d.text.take d.cursor)).2

def settle (d : Document) : Document := { d with wanted := d.column }

def opened (text : List UInt8) : Document := settle ⟨text, text.length, 0⟩

def type (d : Document) (byte : UInt8) : Document :=
  settle { d with text := d.text.take d.cursor ++ byte :: d.text.drop d.cursor, cursor := d.cursor + 1 }

def erase (d : Document) : Document := settle { d with text := d.text.eraseIdx (d.cursor - 1), cursor := d.cursor - 1 }

def aim (d : Document) (row : Nat) : Document :=
  match d.lines[row]? with
  | none => d
  | some line => { d with cursor := lineStart d.lines row + min d.wanted line.length }

def up (d : Document) : Document := if d.row = 0 then d else d.aim (d.row - 1)

def down (d : Document) : Document := d.aim (d.row + 1)

end Document

inductive EditorOp where
  | insert (byte : UInt8)
  | newline
  | backspace
  | left
  | right
  | up
  | down
  | viewport (visibleRows visibleColumns : Nat)

def EditorOp.exec (m : EditorModel) : EditorOp → Bool × EditorModel
  | .insert byte => m.insert byte
  | .newline => m.insertNewline
  | .backspace => m.backspace
  | .left => (true, m.moveLeft)
  | .right => (true, m.moveRight)
  | .up => (true, m.moveUp)
  | .down => (true, m.moveDown)
  | .viewport visibleRows visibleColumns => (true, m.updateViewport visibleRows visibleColumns)

def EditorOp.edit (d : Document) : EditorOp → Bool × Document
  | .insert byte =>
    if byte < 0x20 ∨ byte > 0x7E ∨ d.text.length = textCapacity then (false, d) else (true, d.type byte)
  | .newline => if d.text.length = textCapacity then (false, d) else (true, d.type 0x0A)
  | .backspace => if d.cursor = 0 then (false, d) else (true, d.erase)
  | .left => (true, { d with cursor := d.cursor - 1 }.settle)
  | .right => (true, { d with cursor := min (d.cursor + 1) d.text.length }.settle)
  | .up => (true, d.up)
  | .down => (true, d.down)
  | .viewport _ _ => (true, d)

section Scans
variable {m : EditorModel}

theorem length_text (m : EditorModel) : m.text.length = m.length := by
  unfold EditorModel.text
  rw [List.length_map, List.length_range]

def bytesFrom (m : EditorModel) (i left : Nat) : List UInt8 := (List.range' i left).map m.storage

theorem bytesFrom_succ (m : EditorModel) (i left : Nat) :
    bytesFrom m i (left + 1) = m.storage i :: bytesFrom m (i + 1) left := rfl

theorem bytesFrom_zero (m : EditorModel) (n : Nat) : bytesFrom m 0 n = (List.range n).map m.storage := by
  unfold bytesFrom
  rw [List.range_eq_range']

theorem take_text {n : Nat} (h : n ≤ m.length) : m.text.take n = bytesFrom m 0 n := by
  rw [bytesFrom_zero]
  unfold EditorModel.text
  rw [← List.map_take, List.take_range, Nat.min_eq_left h]

theorem getElem?_text (m : EditorModel) (i : Nat) : m.text[i]? = if i < m.length then some (m.storage i) else none := by
  unfold EditorModel.text
  rw [List.getElem?_map]
  by_cases hi : i < m.length
  · rw [List.getElem?_range hi, if_pos hi]
    rfl
  · rw [List.getElem?_eq_none (by rw [List.length_range]; omega), if_neg hi]
    rfl

theorem text_insertByte (h : m.cursor ≤ m.length) (byte : UInt8) :
    (m.insertByte byte).text = m.text.take m.cursor ++ byte :: m.text.drop m.cursor := by
  have hlength := length_text m
  apply List.ext_getElem?
  intro i
  rw [getElem?_text]
  change (if i < m.length + 1 then
    some (Function.update (shiftUp m.cursor m.length m.storage) m.cursor byte i) else none) = _
  rcases Nat.lt_trichotomy i m.cursor with hlt | rfl | hgt
  · rw [List.getElem?_append_left (by rw [List.length_take]; omega), List.getElem?_take_of_lt hlt, getElem?_text,
      if_pos (by omega), if_pos (by omega), Function.update_of_ne (by omega), shiftUp_eq, if_neg (by omega)]
  · rw [List.getElem?_append_right (by rw [List.length_take]; omega), List.length_take,
      show m.cursor - min m.cursor m.text.length = 0 by omega, if_pos (by omega), Function.update_self]
    rfl
  · rw [List.getElem?_append_right (by rw [List.length_take]; omega), List.length_take,
      show i - min m.cursor m.text.length = i - m.cursor - 1 + 1 by omega, List.getElem?_cons_succ, List.getElem?_drop,
      show m.cursor + (i - m.cursor - 1) = i - 1 by omega, getElem?_text, Function.update_of_ne (by omega), shiftUp_eq]
    by_cases hi : i ≤ m.length
    · rw [if_pos (by omega), if_pos (by omega), if_pos (by omega)]
    · rw [if_neg (by omega), if_neg (by omega)]

theorem text_backspace (hstarted : m.started = true) (h : m.cursor ≤ m.length) (hcursor : m.cursor ≠ 0) :
    m.backspace.2.text = m.text.eraseIdx (m.cursor - 1) := by
  have hmodel : m.backspace.2 = { m with storage := shiftDown m.length m.length (m.cursor - 1) m.storage
                                         cursor := m.cursor - 1, length := m.length - 1
                                         modified := true }.resetDesiredColumn := by
    unfold backspace
    rw [if_neg (by simp [hstarted, hcursor])]
  apply List.ext_getElem?
  intro i
  rw [hmodel, getElem?_text, List.getElem?_eraseIdx, getElem?_text, getElem?_text]
  change (if i < m.length - 1 then some (shiftDown m.length m.length (m.cursor - 1) m.storage i) else none) = _
  rw [shiftDown_eq _ _ _ _ (by omega)]
  by_cases hi : i < m.cursor - 1
  · rw [if_neg (show ¬(m.cursor - 1 ≤ i ∧ i + 1 < m.length) by omega), if_pos hi,
      if_pos (show i < m.length - 1 by omega), if_pos (show i < m.length by omega)]
  · rw [if_neg hi]
    by_cases hend : i + 1 < m.length
    · rw [if_pos (show m.cursor - 1 ≤ i ∧ i + 1 < m.length by omega), if_pos hend,
        if_pos (show i < m.length - 1 by omega)]
    · rw [if_neg (show ¬i < m.length - 1 by omega), if_neg hend]

theorem locateFrom_eq (left i line column : Nat) : m.locateFrom left i line column =
    (line + (place 0x0A (bytesFrom m i left)).1,
      if (place 0x0A (bytesFrom m i left)).1 = 0 then column + (place 0x0A (bytesFrom m i left)).2
      else (place 0x0A (bytesFrom m i left)).2) := by
  induction left generalizing i line column with
  | zero => rfl
  | succ left ih =>
    rw [bytesFrom_succ, locateFrom, place]
    dsimp only
    split
    · rw [ih]
      generalize place 0x0A (bytesFrom m (i + 1) left) = p
      simp
      omega
    · rw [ih]
      generalize place 0x0A (bytesFrom m (i + 1) left) = p
      by_cases hzero : p.1 = 0
      · simp [hzero]
        omega
      · simp [hzero]

theorem cursorLocation_eq (h : m.cursor ≤ m.length) : m.cursorLocation = place 0x0A (m.text.take m.cursor) := by
  unfold cursorLocation
  rw [locateFrom_eq, take_text h, Nat.zero_add, Nat.zero_add, ite_self]

theorem lineCount_eq (m : EditorModel) : m.lineCount = (m.text.splitOn 0x0A).length := by
  have hscan : ∀ n, (List.range n).foldl (fun lines i => if m.storage i = 0x0A then lines + 1 else lines) 1 =
      ((List.range n).map m.storage).count 0x0A + 1 := by
    intro n
    induction n with
    | zero => rfl
    | succ n ih =>
      rw [List.range_succ, List.foldl_append, ih, List.map_append, List.count_append]
      by_cases hbyte : m.storage n = 0x0A
      · simp [hbyte]
      · simp [hbyte]
  rw [length_splitOn]
  exact hscan m.length

theorem boundsFrom_eq {requested left i line start : Nat} (hlength : i + left = m.length) (hstart : start ≤ i)
    (hline : line ≤ requested) : m.boundsFrom requested left i line start =
      (((bytesFrom m i left).splitOn 0x0A)[requested - line]?).map fun bytes =>
        (if requested = line then start else i + lineStart ((bytesFrom m i left).splitOn 0x0A) (requested - line),
          i + lineStart ((bytesFrom m i left).splitOn 0x0A) (requested - line) + bytes.length) := by
  induction left generalizing i line start with
  | zero =>
    have hempty : (bytesFrom m i 0).splitOn 0x0A = [[]] := List.splitOn_nil _
    rw [hempty, boundsFrom]
    by_cases heq : line = requested
    · rw [if_pos heq, heq, Nat.sub_self]
      simp
      omega
    · rw [if_neg heq, List.getElem?_eq_none (by rw [List.length_singleton]; omega)]
      rfl
  | succ left ih =>
    obtain ⟨first, rest, hsplit⟩ := splitOn_eq_cons 0x0A (bytesFrom m (i + 1) left)
    rw [boundsFrom, bytesFrom_succ]
    by_cases hbyte : m.storage i = 0x0A
    · rw [if_neg (not_not_intro hbyte), hbyte, splitOn_cons_sep]
      by_cases heq : line = requested
      · rw [if_pos heq, heq, Nat.sub_self]
        simp
      · rw [if_neg heq, ih (by omega) (Nat.le_refl _) (by omega),
          show requested - line = requested - (line + 1) + 1 by omega, List.getElem?_cons_succ, lineStart_cons_succ,
          if_neg (Ne.symm heq)]
        congr 1
        funext bytes
        by_cases hnext : requested = line + 1
        · rw [if_pos hnext, hnext, Nat.sub_self]
          simp
        · rw [if_neg hnext]
          simp
          omega
    · rw [if_pos hbyte, ih (by omega) (by omega) hline, splitOn_cons_of_ne hbyte hsplit, hsplit]
      by_cases heq : requested = line
      · rw [heq, Nat.sub_self]
        simp
        omega
      · rw [show requested - line = requested - line - 1 + 1 by omega, List.getElem?_cons_succ, List.getElem?_cons_succ,
          lineStart_cons_succ, lineStart_cons_succ, if_neg heq, if_neg heq]
        congr 1
        funext bytes
        simp
        omega

theorem lineBounds_eq (hstarted : m.started = true) (row : Nat) : m.lineBounds row =
    ((m.text.splitOn 0x0A)[row]?).map fun line =>
      (lineStart (m.text.splitOn 0x0A) row, lineStart (m.text.splitOn 0x0A) row + line.length) := by
  unfold lineBounds
  rw [hstarted, lineCount_eq]
  by_cases hrow : row ≥ (m.text.splitOn 0x0A).length
  · rw [if_pos (by simpa using hrow), List.getElem?_eq_none hrow]
    rfl
  · rw [if_neg (by simpa using hrow), boundsFrom_eq (by omega) (Nat.le_refl 0) (Nat.zero_le row), bytesFrom_zero]
    congr 1
    funext line
    by_cases hzero : row = 0
    · rw [if_pos hzero, hzero, Nat.zero_add]
      rfl
    · rw [if_neg hzero, Nat.zero_add]
      rfl

end Scans

/-- The text is one the editor can hold, and the column is the wanted one or the end of its row. -/
structure Document.Sound (d : Document) : Prop where
  cursor : d.cursor ≤ d.text.length
  length : d.text.length ≤ textCapacity
  supported : ∀ byte ∈ d.text, supportedTextByte byte = true
  column : ∃ line, d.lines[d.row]? = some line ∧ d.column = min d.wanted line.length

namespace Document

variable {d : Document}

theorem located (h : d.cursor ≤ d.text.length) : ∃ line, d.lines[d.row]? = some line ∧ d.column ≤ line.length ∧
    d.cursor = lineStart d.lines d.row + d.column := place_take h

theorem row_column {line : List UInt8} {row column wanted : Nat} (hline : d.lines[row]? = some line)
    (hcolumn : column ≤ line.length) :
    lineStart d.lines row + column ≤ d.text.length ∧
    row = (⟨d.text, lineStart d.lines row + column, wanted⟩ : Document).row ∧
    column = (⟨d.text, lineStart d.lines row + column, wanted⟩ : Document).column := by
  obtain ⟨hlength, hplace⟩ := place_lineStart hline hcolumn
  refine ⟨hlength, ?_, ?_⟩
  · exact (congrArg Prod.fst hplace).symm
  · exact (congrArg Prod.snd hplace).symm

theorem Sound.settle {d : Document} (hcursor : d.cursor ≤ d.text.length) (hlength : d.text.length ≤ textCapacity)
    (hsupported : ∀ byte ∈ d.text, supportedTextByte byte = true) : d.settle.Sound := by
  refine ⟨hcursor, hlength, hsupported, ?_⟩
  obtain ⟨line, hline, hcolumn, -⟩ := located hcursor
  exact ⟨line, hline, (Nat.min_eq_left hcolumn).symm⟩

theorem aim_some {row : Nat} {line : List UInt8} (h : d.lines[row]? = some line) :
    d.aim row = { d with cursor := lineStart d.lines row + min d.wanted line.length } := by
  unfold aim
  rw [h]

theorem aim_none {row : Nat} (h : d.lines[row]? = none) : d.aim row = d := by
  unfold aim
  rw [h]

theorem Sound.aim (h : d.Sound) (row : Nat) : (d.aim row).Sound := by
  cases hline : d.lines[row]? with
  | none =>
    rw [aim_none hline]
    exact h
  | some line =>
    rw [aim_some hline]
    obtain ⟨hlength, hrow, hcolumn⟩ := @row_column d line row _ d.wanted hline (Nat.min_le_right d.wanted line.length)
    refine ⟨hlength, h.length, h.supported, line, ?_, hcolumn.symm⟩
    rw [← hrow]
    exact hline

theorem Sound.aim_row (h : d.Sound) : d.aim d.row = d := by
  obtain ⟨line, hline, hcolumn⟩ := h.column
  obtain ⟨line', hline', -, hcursor⟩ := located h.cursor
  rw [aim_some hline, ← hcolumn, ← hcursor]

theorem aim_aim (row row' : Nat) (h : row' < d.lines.length) : (d.aim row).aim row' = d.aim row' := by
  cases hline : d.lines[row]? with
  | none => rw [aim_none hline]
  | some line =>
    have hline' : d.lines[row']? = some d.lines[row'] := List.getElem?_eq_getElem h
    rw [aim_some hline, aim_some hline']
    exact aim_some hline'

theorem row_aim {row : Nat} (h : row < d.lines.length) : (d.aim row).row = row := by
  have hline : d.lines[row]? = some d.lines[row] := List.getElem?_eq_getElem h
  rw [aim_some hline]
  exact (row_column hline (Nat.min_le_right d.wanted _)).2.1.symm

theorem Sound.row_lt (h : d.Sound) : d.row < d.lines.length := by
  obtain ⟨line, hline, -⟩ := h.column
  exact (List.getElem?_eq_some_iff.mp hline).1

theorem up_aim {row : Nat} (h : row + 1 < d.lines.length) : (d.aim (row + 1)).up = d.aim row := by
  unfold up
  rw [row_aim h, if_neg (Nat.succ_ne_zero row), Nat.add_sub_cancel, aim_aim _ _ (Nat.lt_of_succ_lt h)]

theorem down_aim {row : Nat} (h : row + 1 < d.lines.length) : (d.aim row).down = d.aim (row + 1) := by
  unfold down
  rw [row_aim (Nat.lt_of_succ_lt h), aim_aim _ _ h]

theorem up_iterate {row : Nat} (k : Nat) (h : row + k < d.lines.length) : up^[k] (d.aim (row + k)) = d.aim row := by
  induction k with
  | zero => rfl
  | succ k ih =>
    have hstep : row + k + 1 < d.lines.length := h
    rw [Function.iterate_succ_apply, ← Nat.add_assoc, up_aim hstep, ih (Nat.lt_of_succ_lt hstep)]

theorem down_iterate {row : Nat} (k : Nat) (h : row + k < d.lines.length) :
    down^[k] (d.aim row) = d.aim (row + k) := by
  induction k with
  | zero => rfl
  | succ k ih =>
    have hstep : row + k + 1 < d.lines.length := h
    rw [Function.iterate_succ_apply', ih (Nat.lt_of_succ_lt hstep), down_aim hstep, ← Nat.add_assoc]

theorem Sound.down_up (h : d.Sound) {k : Nat} (hk : k ≤ d.row) : down^[k] (up^[k] d) = d := by
  have hlt := h.row_lt
  have hrow : d.row - k + k = d.row := Nat.sub_add_cancel hk
  calc down^[k] (up^[k] d) = down^[k] (up^[k] (d.aim (d.row - k + k))) := by rw [hrow, h.aim_row]
    _ = d.aim (d.row - k + k) := by rw [up_iterate k (by omega), down_iterate k (by omega)]
    _ = d := by rw [hrow, h.aim_row]

theorem Sound.up_down (h : d.Sound) {k : Nat} (hk : d.row + k < d.lines.length) : up^[k] (down^[k] d) = d := by
  calc up^[k] (down^[k] d) = up^[k] (down^[k] (d.aim d.row)) := by rw [h.aim_row]
    _ = d.aim d.row := by rw [down_iterate k hk, up_iterate k hk]
    _ = d := h.aim_row

end Document

end Linux95.Gui.Editor
