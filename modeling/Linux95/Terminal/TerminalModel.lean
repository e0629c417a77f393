import Mathlib.Logic.Function.Basic
import Mathlib.Data.List.Basic

/-! The text screen of `gui/terminal_model.cpp`: 64 lines of 120 columns, each ended by a NUL. -/

namespace Linux95.Terminal

def columns : Nat := 120
def historyLines : Nat := 64

structure TerminalModel where
  lines : Nat → Nat → Char
  lineCount : Nat
  cursorColumn : Nat

namespace TerminalModel

def blank : Nat → Char := fun _ => '\x00'

def cleared : TerminalModel := ⟨fun _ => blank, 1, 0⟩

def clear (_ : TerminalModel) : TerminalModel := cleared

def setCell (t : TerminalModel) (column : Nat) (c : Char) : TerminalModel :=
  { t with lines := Function.update t.lines (t.lineCount - 1)
                      (Function.update (t.lines (t.lineCount - 1)) column c) }

def scroll (t : TerminalModel) : TerminalModel :=
  { t with lines := fun row => if row + 1 < historyLines then t.lines (row + 1) else blank
           lineCount := historyLines }

def newLine (t : TerminalModel) : TerminalModel :=
  let t :=
    if t.lineCount < historyLines then
      { t with lines := Function.update t.lines t.lineCount blank, lineCount := t.lineCount + 1 }
    else t.scroll
  { t with cursorColumn := 0 }

/-- The last part of `put_char`: the character at the cursor and a NUL behind it. -/
def place (t : TerminalModel) (c : Char) : TerminalModel :=
  let t := t.setCell t.cursorColumn c
  let t := { t with cursorColumn := t.cursorColumn + 1 }
  t.setCell t.cursorColumn '\x00'

def putChar (t : TerminalModel) (c : Char) : TerminalModel :=
  if c = '\n' then t.newLine
  else if c = '\x08' then
    if t.cursorColumn = 0 then t
    else
      let t := { t with cursorColumn := t.cursorColumn - 1 }
      t.setCell t.cursorColumn '\x00'
  else if c = '\r' then t
  else if t.cursorColumn ≥ columns then t.newLine.place c
  else t.place c

def rowText (row : Nat → Char) : List Char :=
  ((List.range (columns + 1)).map row).takeWhile (· ≠ '\x00')

def line (t : TerminalModel) (visibleIndex : Nat) : Option (List Char) :=
  if visibleIndex ≥ t.lineCount then none else some (rowText (t.lines visibleIndex))

def tail (t : TerminalModel) (below : Nat) : List Char :=
  (List.range (below + 1)).flatMap fun k => rowText (t.lines (t.lineCount - 1 - below + k))

def breaks (t : TerminalModel) (c : Char) : Bool :=
  c = '\n' || (c ≠ '\x08' && c ≠ '\r' && t.cursorColumn ≥ columns)

structure Valid (t : TerminalModel) : Prop where
  pos : 0 < t.lineCount
  le : t.lineCount ≤ historyLines
  column : t.cursorColumn ≤ columns

/-- No NUL stands before the cursor on its line, and one stands at it. -/
structure Clean (t : TerminalModel) : Prop where
  before : ∀ j < t.cursorColumn, t.lines (t.lineCount - 1) j ≠ '\x00'
  at_cursor : t.lines (t.lineCount - 1) t.cursorColumn = '\x00'

variable {t : TerminalModel} {c : Char}

theorem rowText_eq (row : Nat → Char) {n : Nat} (hn : n ≤ columns) (hne : ∀ j < n, row j ≠ '\x00')
    (hat : row n = '\x00') : rowText row = (List.range n).map row := by
  have hsplit : List.range (columns + 1) =
      List.range n ++ n :: (List.range (columns - n)).map (n + 1 + ·) := by
    rw [show columns + 1 = n + 1 + (columns - n) by omega, List.range_add, List.range_succ]
    simp
  rw [rowText, hsplit, List.map_append, List.map_cons, List.takeWhile_append_of_pos]
  · simp [hat]
  · intro c hc
    obtain ⟨j, hj, rfl⟩ := List.mem_map.mp hc
    simpa using hne j (List.mem_range.mp hj)

theorem rowText_blank : rowText blank = [] := by
  rw [rowText_eq blank (Nat.zero_le _) (fun j hj => absurd hj (Nat.not_lt_zero j)) rfl]
  rfl

theorem newLine_valid (t : TerminalModel) : t.newLine.Valid := by
  rw [newLine]
  split
  · next hlt => exact ⟨Nat.succ_pos _, hlt, Nat.zero_le _⟩
  · exact ⟨show 0 < historyLines by decide, Nat.le_refl historyLines, Nat.zero_le _⟩

theorem place_valid (h : t.Valid) (hc : t.cursorColumn < columns) : (t.place c).Valid :=
  ⟨h.pos, h.le, hc⟩

theorem putChar_valid (h : t.Valid) (c : Char) : (t.putChar c).Valid := by
  rw [putChar]
  split
  · exact newLine_valid t
  · split
    · split
      · exact h
      · exact ⟨h.pos, h.le, Nat.le_trans (Nat.sub_le _ _) h.column⟩
    · split
      · exact h
      · split
        · exact place_valid (newLine_valid t) (show 0 < columns by decide)
        · next hlt => exact place_valid h (Nat.lt_of_not_le hlt)

theorem newLine_last (t : TerminalModel) : t.newLine.lines (t.newLine.lineCount - 1) = blank := by
  rw [newLine]
  split
  · simp
  · simp [scroll, historyLines]

theorem newLine_clean (t : TerminalModel) : t.newLine.Clean := by
  have hcol : t.newLine.cursorColumn = 0 := by rw [newLine]
  refine ⟨?_, ?_⟩
  · intro j hj
    rw [hcol] at hj
    exact absurd hj (Nat.not_lt_zero j)
  · rw [newLine_last]
    rfl

theorem place_last (t : TerminalModel) (c : Char) :
    (t.place c).lines ((t.place c).lineCount - 1) =
      Function.update (Function.update (t.lines (t.lineCount - 1)) t.cursorColumn c)
        (t.cursorColumn + 1) '\x00' := by
  simp [place, setCell]

theorem place_clean (h : t.Clean) (hc : c ≠ '\x00') : (t.place c).Clean := by
  have hcol : (t.place c).cursorColumn = t.cursorColumn + 1 := rfl
  constructor
  · intro j hj
    rw [hcol] at hj
    rw [place_last, Function.update_of_ne (by omega)]
    rcases eq_or_ne j t.cursorColumn with rfl | hne
    · rw [Function.update_self]
      exact hc
    · rw [Function.update_of_ne hne]
      exact h.before j (by omega)
  · rw [place_last, hcol, Function.update_self]

theorem putChar_clean (h : t.Clean) (hc : c ≠ '\x00') : (t.putChar c).Clean := by
  -- only a NUL among the characters put spoils the line of the cursor
  rw [putChar]
  split
  · exact newLine_clean t
  · split
    · split
      · exact h
      · constructor
        · intro j hj
          have hj' : j < t.cursorColumn - 1 := hj
          simp only [setCell, Function.update_self]
          rw [Function.update_of_ne (by omega)]
          exact h.before j (by omega)
        · simp [setCell]
    · split
      · exact h
      · split
        · exact place_clean (newLine_clean t) hc
        · exact place_clean h hc

section tail

variable {below : Nat}

theorem tail_eq (hb : below < t.lineCount) :
    t.tail below = ((List.range below).flatMap fun k =>
      rowText (t.lines (t.lineCount - 1 - below + k))) ++ rowText (t.lines (t.lineCount - 1)) := by
  rw [tail, List.range_succ, List.flatMap_append, List.flatMap_singleton,
    show t.lineCount - 1 - below + below = t.lineCount - 1 by omega]

theorem tail_update (t' : TerminalModel) (hb : below < t.lineCount)
    (hcount : t'.lineCount = t.lineCount)
    (hlines : ∀ row, row ≠ t.lineCount - 1 → t'.lines row = t.lines row) :
    t'.tail below = ((List.range below).flatMap fun k =>
      rowText (t.lines (t.lineCount - 1 - below + k))) ++ rowText (t'.lines (t.lineCount - 1)) := by
  rw [tail_eq (by omega), hcount]
  congr 1
  apply List.flatMap_congr
  intro k hk
  rw [hlines]
  have := List.mem_range.mp hk
  omega

theorem Clean.last_eq (h : t.Clean) (hv : t.Valid) :
    rowText (t.lines (t.lineCount - 1)) =
      (List.range t.cursorColumn).map (t.lines (t.lineCount - 1)) :=
  rowText_eq _ hv.column h.before h.at_cursor

theorem tail_zero (h : t.Clean) (hv : t.Valid) : (t.tail 0).length = t.cursorColumn := by
  rw [tail_eq hv.pos, h.last_eq hv]
  simp

theorem tail_newLine (hv : t.Valid) (hb : below < t.lineCount) (hb' : below + 1 < historyLines) :
    t.newLine.tail (below + 1) = t.tail below := by
  -- a new line changes none of the text above it, also when the screen scrolls
  have hcount : below + 1 < t.newLine.lineCount := by
    rw [newLine]
    split
    · exact Nat.succ_lt_succ hb
    · exact hb'
  rw [tail_eq hcount, newLine_last, rowText_blank, List.append_nil, tail]
  apply List.flatMap_congr
  intro k hk
  have hk' := List.mem_range.mp hk
  have hpos := hv.pos
  have hle := hv.le
  congr 1
  rw [newLine]
  split
  · show Function.update t.lines t.lineCount blank (t.lineCount + 1 - 1 - (below + 1) + k) = _
    rw [Function.update_of_ne (by omega)]
    congr 1
    omega
  · next hfull =>
    show (if historyLines - 1 - (below + 1) + k + 1 < historyLines then
      t.lines (historyLines - 1 - (below + 1) + k + 1) else blank) = _
    rw [if_pos (by omega)]
    congr 1
    omega

theorem tail_place (h : t.Clean) (hv : t.Valid) (hcol : t.cursorColumn < columns)
    (hc : c ≠ '\x00') (hb : below < t.lineCount) : (t.place c).tail below = t.tail below ++ [c] := by
  have hlast := (place_clean h hc).last_eq (place_valid hv hcol)
  have hrows : ∀ row, row ≠ t.lineCount - 1 → (t.place c).lines row = t.lines row := by
    intro row hrow
    simp [place, setCell, Function.update_of_ne hrow]
  rw [tail_update (t.place c) hb rfl hrows, tail_eq hb, List.append_assoc]
  congr 1
  change rowText ((t.place c).lines (t.lineCount - 1)) = _ at hlast
  rw [hlast, h.last_eq hv]
  show (List.range (t.cursorColumn + 1)).map ((t.place c).lines ((t.place c).lineCount - 1)) = _
  rw [place_last, List.range_succ, List.map_append]
  congr 1
  · apply List.map_congr_left
    intro j hj
    have := List.mem_range.mp hj
    rw [Function.update_of_ne (by omega), Function.update_of_ne (by omega)]
  · simp

theorem tail_backspace (h : t.Clean) (hv : t.Valid) (hcol : t.cursorColumn ≠ 0)
    (hb : below < t.lineCount) : (t.putChar '\x08').tail below = (t.tail below).dropLast := by
  -- a backspace inside the line takes the last character away
  obtain ⟨n, hn⟩ := Nat.exists_eq_succ_of_ne_zero hcol
  have heq : t.putChar '\x08' =
      ({ t with cursorColumn := n } : TerminalModel).setCell n '\x00' := by
    rw [putChar, if_neg (by decide), if_pos rfl, if_neg hcol]
    simp only [hn, Nat.succ_sub_one]
  have hlast := (putChar_clean h (c := '\x08') (by decide)).last_eq (putChar_valid hv _)
  rw [heq] at hlast ⊢
  have hrows : ∀ row, row ≠ t.lineCount - 1 →
      (({ t with cursorColumn := n } : TerminalModel).setCell n '\x00').lines row =
        t.lines row := by
    intro row hrow
    simp [setCell, Function.update_of_ne hrow]
  rw [tail_update (({ t with cursorColumn := n } : TerminalModel).setCell n '\x00') hb rfl
    hrows, tail_eq hb]
  change rowText ((({ t with cursorColumn := n } : TerminalModel).setCell n '\x00').lines
    (t.lineCount - 1)) = _ at hlast
  have hold : rowText (t.lines (t.lineCount - 1)) =
      (List.range n).map (t.lines (t.lineCount - 1)) ++ [t.lines (t.lineCount - 1) n] := by
    rw [h.last_eq hv, hn, List.range_succ, List.map_append]
    rfl
  rw [hlast, hold, ← List.append_assoc, List.dropLast_concat]
  congr 1
  apply List.map_congr_left
  intro j hj
  have hjn : j < n := List.mem_range.mp hj
  simp only [setCell, Function.update_self]
  rw [Function.update_of_ne (by omega)]

end tail

end TerminalModel

end Linux95.Terminal
