import Linux95.Terminal.TerminalModel

/-! The text screen as a window on a terminal that forgets nothing. -/

namespace Linux95.Terminal

/-- All lines ever written: those above the current one, oldest first, and the current one. -/
structure Unbounded where
  above : List (List Char)
  current : List Char

namespace Unbounded

def empty : Unbounded := ⟨[], []⟩

def lines (u : Unbounded) : List (List Char) := u.above ++ [u.current]

def newLine (u : Unbounded) : Unbounded := ⟨u.above ++ [u.current], []⟩

def type (u : Unbounded) (c : Char) : Unbounded := { u with current := u.current ++ [c] }

/-- A backspace never joins lines, and a full line is left when the next character comes. -/
def putChar (u : Unbounded) (c : Char) : Unbounded :=
  if c = '\n' then u.newLine
  else if c = '\x08' then { u with current := u.current.dropLast }
  else if c = '\r' then u
  else if u.current.length = columns then u.newLine.type c
  else u.type c

def window (u : Unbounded) : List (List Char) := u.lines.drop (u.lines.length - historyLines)

end Unbounded

def cells (line : List Char) : Nat → Char := fun column => line.getD column '\x00'

section Cells
variable {line : List Char} {c : Char}

theorem cells_inside {j : Nat} (h : j < line.length) : cells line j = (line)[j] := by
  unfold cells
  rw [List.getD_eq_getElem?_getD, List.getElem?_eq_getElem h, Option.getD_some]

theorem cells_past {j : Nat} (h : line.length ≤ j) : cells line j = '\x00' := by
  unfold cells
  rw [List.getD_eq_getElem?_getD, List.getElem?_eq_none h, Option.getD_none]

theorem cells_append (line : List Char) (c : Char) : cells (line ++ [c]) =
    Function.update (Function.update (cells line) line.length c) (line.length + 1) '\x00' := by
  funext j
  rcases Nat.lt_trichotomy j line.length with hlt | rfl | hgt
  · rw [Function.update_of_ne (by omega), Function.update_of_ne (by omega), cells_inside hlt,
      cells_inside (by rw [List.length_append, List.length_singleton]; omega), List.getElem_append_left hlt]
  · rw [Function.update_of_ne (by omega), Function.update_self,
      cells_inside (by rw [List.length_append, List.length_singleton]; omega), List.getElem_concat_length rfl]
  · rw [cells_past (by rw [List.length_append, List.length_singleton]; omega)]
    by_cases hnext : j = line.length + 1
    · rw [hnext, Function.update_self]
    · rw [Function.update_of_ne hnext, Function.update_of_ne (by omega), cells_past (Nat.le_of_lt hgt)]

theorem cells_dropLast (line : List Char) :
    cells line.dropLast = Function.update (cells line) (line.length - 1) '\x00' := by
  funext j
  by_cases hj : j = line.length - 1
  · rw [hj, Function.update_self, cells_past (Nat.le_of_eq List.length_dropLast)]
  · rw [Function.update_of_ne hj]
    by_cases hlt : j < line.length - 1
    · rw [cells_inside (by rw [List.length_dropLast]; exact hlt), cells_inside (by omega), List.getElem_dropLast]
    · rw [cells_past (by rw [List.length_dropLast]; omega), cells_past (by omega)]

theorem rowText_cells (hlength : line.length ≤ columns) (hnul : '\x00' ∉ line) :
    TerminalModel.rowText (cells line) = line := by
  rw [TerminalModel.rowText_eq (cells line) hlength ?_ (cells_past (Nat.le_refl _))]
  · apply List.ext_getElem
    · rw [List.length_map, List.length_range]
    · intro j hj hj'
      rw [List.getElem_map, List.getElem_range, cells_inside hj']
  · intro j hj heq
    rw [cells_inside hj] at heq
    exact hnul (heq ▸ List.getElem_mem hj)

end Cells

structure Shows (t : TerminalModel) (u : Unbounded) : Prop where
  count : t.lineCount = min historyLines u.lines.length
  column : t.cursorColumn = u.current.length
  rows : ∀ i line, u.lines[u.lines.length - t.lineCount + i]? = some line → t.lines i = cells line
  fits : ∀ line ∈ u.lines, line.length ≤ columns ∧ '\x00' ∉ line

namespace Shows

variable {t : TerminalModel} {u : Unbounded} {c : Char}

theorem cleared : Shows .cleared .empty := by
  refine ⟨rfl, rfl, fun i line h => ?_, fun line h => ?_⟩
  · have hline : line ∈ Unbounded.empty.lines := List.mem_of_getElem? h
    rw [List.mem_singleton.mp hline]
    rfl
  · rw [List.mem_singleton.mp h]
    exact ⟨Nat.zero_le _, List.not_mem_nil⟩

theorem length_lines (u : Unbounded) : u.lines.length = u.above.length + 1 := by
  unfold Unbounded.lines
  rw [List.length_append, List.length_singleton]

theorem current_mem (u : Unbounded) : u.current ∈ u.lines := List.mem_append_right _ (List.mem_singleton.mpr rfl)

theorem last (h : Shows t u) : t.lines (t.lineCount - 1) = cells u.current := by
  have hcount := h.count
  have hlength := length_lines u
  have hlines : historyLines = 64 := rfl
  refine h.rows _ _ ?_
  rw [show u.lines.length - t.lineCount + (t.lineCount - 1) = u.above.length by omega]
  unfold Unbounded.lines
  rw [List.getElem?_concat_length]

theorem newLine (h : Shows t u) : Shows t.newLine u.newLine := by
  have hcount := h.count
  have hlength := length_lines u
  have hlines : historyLines = 64 := rfl
  have hnew : u.newLine.lines = u.lines ++ [[]] := rfl
  have hfits : ∀ line ∈ u.newLine.lines, line.length ≤ columns ∧ '\x00' ∉ line := by
    intro line hline
    rw [hnew, List.mem_append, List.mem_singleton] at hline
    rcases hline with hold | rfl
    · exact h.fits line hold
    · exact ⟨Nat.zero_le _, List.not_mem_nil⟩
  unfold TerminalModel.newLine
  split
  · -- there is room for one more row
    rename_i hroom
    refine ⟨?_, rfl, fun i line hline => ?_, hfits⟩
    · rw [hnew, List.length_append, List.length_singleton]
      dsimp only
      omega
    · change (u.lines ++ [[]])[(u.lines ++ [[]]).length - (t.lineCount + 1) + i]? = some line at hline
      change Function.update t.lines t.lineCount TerminalModel.blank i = cells line
      rw [List.length_append, List.length_singleton, Nat.add_sub_add_right] at hline
      by_cases hlast : i = t.lineCount
      · rw [hlast, show u.lines.length - t.lineCount + t.lineCount = u.lines.length by omega,
          List.getElem?_concat_length] at hline
        rw [hlast, Function.update_self, ← Option.some.inj hline]
        rfl
      · have hlt : u.lines.length - t.lineCount + i < (u.lines ++ [[]]).length := (List.getElem?_eq_some_iff.mp hline).1
        rw [List.length_append, List.length_singleton] at hlt
        rw [Function.update_of_ne hlast]
        rw [List.getElem?_append_left (by omega)] at hline
        exact h.rows i line hline
  · -- the rows move up by one
    rename_i hfull
    refine ⟨?_, rfl, fun i line hline => ?_, hfits⟩
    · rw [hnew, List.length_append, List.length_singleton]
      dsimp only [TerminalModel.scroll]
      omega
    · dsimp only [TerminalModel.scroll] at hline ⊢
      rw [hnew] at hline
      have hlt := (List.getElem?_eq_some_iff.mp hline).1
      rw [List.length_append, List.length_singleton] at hline hlt
      by_cases hlast : i + 1 < historyLines
      · rw [if_pos hlast]
        rw [List.getElem?_append_left (by omega),
          show u.lines.length + 1 - historyLines + i = u.lines.length - t.lineCount + (i + 1) by omega] at hline
        exact h.rows (i + 1) line hline
      · rw [if_neg hlast]
        rw [show u.lines.length + 1 - historyLines + i = u.lines.length by omega, List.getElem?_concat_length] at hline
        rw [← Option.some.inj hline]
        rfl

theorem change (h : Shows t u) {t' : TerminalModel} {line : List Char} (hcount : t'.lineCount = t.lineCount)
    (hcolumn : t'.cursorColumn = line.length)
    (hlines : t'.lines = Function.update t.lines (t.lineCount - 1) (cells line)) (hlength : line.length ≤ columns)
    (hnul : '\x00' ∉ line) : Shows t' { u with current := line } := by
  have hold := h.count
  have hlen := length_lines u
  have hlen' : ({ u with current := line } : Unbounded).lines.length = u.above.length + 1 := length_lines _
  have hrows : historyLines = 64 := rfl
  refine ⟨by omega, hcolumn, fun i line' hline => ?_, fun line' hline => ?_⟩
  · rw [hlines]
    have hlt := (List.getElem?_eq_some_iff.mp hline).1
    rw [hlen', hcount] at hline hlt
    dsimp only [Unbounded.lines] at hline
    by_cases hlast : i = t.lineCount - 1
    · rw [show u.above.length + 1 - t.lineCount + i = u.above.length by omega, List.getElem?_concat_length] at hline
      rw [hlast, Function.update_self, ← Option.some.inj hline]
    · rw [Function.update_of_ne hlast]
      refine h.rows i line' ?_
      rw [hlen, Unbounded.lines, List.getElem?_append_left (by omega)]
      rw [List.getElem?_append_left (by omega)] at hline
      exact hline
  · rcases List.mem_append.mp hline with habove | hcurrent
    · exact h.fits line' (List.mem_append_left _ habove)
    · rw [List.mem_singleton.mp hcurrent]
      exact ⟨hlength, hnul⟩

theorem current_fits (h : Shows t u) : u.current.length ≤ columns ∧ '\x00' ∉ u.current := h.fits _ (current_mem u)

theorem place (h : Shows t u) (hroom : u.current.length < columns) (hc : c ≠ '\x00') : Shows (t.place c) (u.type c) := by
  have hlines : (t.place c).lines = Function.update t.lines (t.lineCount - 1) (cells (u.current ++ [c])) := by
    rw [cells_append, ← h.column, ← h.last]
    simp [TerminalModel.place, TerminalModel.setCell]
  refine h.change rfl ?_ hlines ?_ ?_
  · rw [List.length_append, List.length_singleton, ← h.column]
    rfl
  · rw [List.length_append, List.length_singleton]
    exact hroom
  · rw [List.mem_append, List.mem_singleton]
    rintro (hin | heq)
    · exact h.current_fits.2 hin
    · exact hc heq.symm

theorem backspace (h : Shows t u) : Shows (t.putChar '\x08') (u.putChar '\x08') := by
  have hnew : u.putChar '\x08' = { u with current := u.current.dropLast } := rfl
  have hput : t.putChar '\x08' =
      if t.cursorColumn = 0 then t
      else ({ t with cursorColumn := t.cursorColumn - 1 } : TerminalModel).setCell (t.cursorColumn - 1) '\x00' := rfl
  rw [hnew, hput]
  by_cases hcolumn : t.cursorColumn = 0
  · have hempty : u.current = [] := List.eq_nil_of_length_eq_zero (h.column ▸ hcolumn)
    have hsame : ({ u with current := u.current.dropLast } : Unbounded) = u := by
      rw [hempty, List.dropLast_nil, ← hempty]
    rw [if_pos hcolumn, hsame]
    exact h
  · rw [if_neg hcolumn]
    refine h.change rfl ?_ ?_ ?_ fun hmem => h.current_fits.2 (List.dropLast_subset _ hmem)
    · rw [List.length_dropLast, ← h.column]
      rfl
    · rw [cells_dropLast, ← h.column, ← h.last]
      rfl
    · rw [List.length_dropLast]
      exact Nat.le_trans (Nat.sub_le _ _) h.current_fits.1

theorem putChar (h : Shows t u) (hc : c ≠ '\x00') : Shows (t.putChar c) (u.putChar c) := by
  by_cases hback : c = '\x08'
  · rw [hback]
    exact h.backspace
  unfold TerminalModel.putChar Unbounded.putChar
  rw [if_neg hback, if_neg hback]
  split
  · exact h.newLine
  split
  · exact h
  have hfits := h.current_fits.1
  by_cases hfull : u.current.length = columns
  · rw [if_pos (by rw [h.column]; omega), if_pos hfull]
    exact h.newLine.place (show 0 < columns by decide) hc
  · rw [if_neg (by rw [h.column]; omega), if_neg hfull]
    exact h.place (by omega) hc

theorem text (h : Shows t u) (text : List Char) (htext : ∀ c ∈ text, c ≠ '\x00') :
    Shows (text.foldl TerminalModel.putChar t) (text.foldl Unbounded.putChar u) := by
  induction text generalizing t u with
  | nil => exact h
  | cons c text ih =>
    exact ih (h.putChar (htext c List.mem_cons_self)) fun c' hc' => htext c' (List.mem_cons_of_mem c hc')

theorem line_eq (h : Shows t u) : (List.range t.lineCount).map t.line = u.window.map some := by
  have hcount := h.count
  apply List.ext_getElem?
  intro i
  unfold Unbounded.window
  rw [List.getElem?_map, List.getElem?_map, List.getElem?_drop,
    show u.lines.length - historyLines = u.lines.length - t.lineCount by omega]
  by_cases hi : i < t.lineCount
  · rw [List.getElem?_range hi, List.getElem?_eq_getElem (by omega), Option.map_some, Option.map_some]
    have hrow := h.rows i _ (List.getElem?_eq_getElem (by omega))
    obtain ⟨hlength, hnul⟩ := h.fits _ (List.getElem_mem (show u.lines.length - t.lineCount + i < u.lines.length by omega))
    unfold TerminalModel.line
    rw [if_neg (by omega), hrow, rowText_cells hlength hnul]
  · rw [List.getElem?_eq_none (by rw [List.length_range]; omega), List.getElem?_eq_none (by omega)]
    rfl

theorem row_ends (h : Shows t u) {i : Nat} (hi : i < t.lineCount) : ∃ stop ≤ columns,
    (∀ j < stop, t.lines i j ≠ '\x00') ∧ ∀ j, stop ≤ j → t.lines i j = '\x00' := by
  have hcount := h.count
  have hinside : u.lines.length - t.lineCount + i < u.lines.length := by omega
  have hrow := h.rows i _ (List.getElem?_eq_getElem hinside)
  obtain ⟨hlength, hnul⟩ := h.fits _ (List.getElem_mem hinside)
  refine ⟨u.lines[u.lines.length - t.lineCount + i].length, hlength, fun j hj heq => ?_, fun j hj => ?_⟩
  · rw [hrow, cells_inside hj] at heq
    exact hnul (heq ▸ List.getElem_mem hj)
  · rw [hrow, cells_past hj]

end Shows

/-- Whatever is written, the screen shows the last 64 lines of a terminal that keeps them all, the cursor is behind
the last of them, and every row is a text, its NUL and NULs. -/
theorem terminal_shows_last_lines (t : TerminalModel) (text : List Char) (htext : ∀ c ∈ text, c ≠ '\x00') :
    let screen := text.foldl TerminalModel.putChar t.clear
    let paper := text.foldl Unbounded.putChar .empty
    (List.range screen.lineCount).map screen.line = paper.window.map some ∧
    screen.lineCount = min historyLines paper.lines.length ∧ screen.cursorColumn = paper.current.length ∧
    (∀ i < screen.lineCount, ∃ stop ≤ columns, (∀ j < stop, screen.lines i j ≠ '\x00') ∧
      ∀ j, stop ≤ j → screen.lines i j = '\x00') ∧
    1 ≤ screen.lineCount ∧ screen.lineCount ≤ historyLines ∧ screen.cursorColumn ≤ columns := by
  have hshows : Shows (text.foldl TerminalModel.putChar t.clear) (text.foldl Unbounded.putChar .empty) :=
    Shows.cleared.text text htext
  have hcount := hshows.count
  have hlength := Shows.length_lines (text.foldl Unbounded.putChar .empty)
  have hrows : historyLines = 64 := rfl
  refine ⟨hshows.line_eq, hcount, hshows.column, fun i hi => hshows.row_ends hi, by omega, by omega, ?_⟩
  rw [hshows.column]
  exact hshows.current_fits.1

theorem terminal_shows_last_lines_two : (∀ c ∈ "ls\n$".toList, c ≠ '\x00') ∧
    (List.range (("ls\n$".toList.foldl TerminalModel.putChar TerminalModel.cleared.clear).lineCount)).map
      ("ls\n$".toList.foldl TerminalModel.putChar TerminalModel.cleared.clear).line =
        [some "ls".toList, some "$".toList] :=
  ⟨by simp, (terminal_shows_last_lines .cleared "ls\n$".toList (by simp)).1.trans (by decide)⟩

end Linux95.Terminal
