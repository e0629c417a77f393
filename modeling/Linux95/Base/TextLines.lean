import Mathlib.Algebra.BigOperators.Group.List.Basic
import Mathlib.Algebra.GroupWithZero.Nat
import Mathlib.Tactic.Common

/-! Texts cut into lines at a separator: positions in the text against rows and columns. -/

namespace Linux95.Base

variable {α : Type}

def lineStart (lines : List (List α)) (row : Nat) : Nat := ((lines.take row).map fun line => line.length + 1).sum

section Starts
variable {lines : List (List α)} {line : List α} {row : Nat}

@[simp] theorem lineStart_zero (lines : List (List α)) : lineStart lines 0 = 0 := rfl

@[simp] theorem lineStart_cons_succ (line : List α) (lines : List (List α)) (row : Nat) :
    lineStart (line :: lines) (row + 1) = line.length + 1 + lineStart lines row := by
  unfold lineStart
  rw [List.take_succ_cons, List.map_cons, List.sum_cons]

theorem lineStart_succ (h : lines[row]? = some line) : lineStart lines (row + 1) = lineStart lines row + line.length + 1 := by
  unfold lineStart
  rw [List.take_add_one, h, Option.toList_some, List.map_append, List.sum_append, Nat.add_assoc]
  rfl

end Starts

variable [DecidableEq α]

def place (sep : α) : List α → Nat × Nat
  | [] => (0, 0)
  | x :: text =>
    let (row, column) := place sep text
    if x = sep then (row + 1, column) else if row = 0 then (0, column + 1) else (row, column)

section Lines
variable {sep x : α} {text line : List α} {lines : List (List α)} {row column position : Nat}

theorem splitOn_cons_sep (text : List α) : (sep :: text).splitOn sep = [] :: text.splitOn sep := by
  unfold List.splitOn
  rw [List.splitOnP_cons_eq_if_modifyHead, if_pos (beq_self_eq_true sep)]

theorem splitOn_cons_of_ne (hx : x ≠ sep) (h : text.splitOn sep = line :: lines) :
    (x :: text).splitOn sep = (x :: line) :: lines := by
  unfold List.splitOn at *
  rw [List.splitOnP_cons_eq_if_modifyHead, if_neg (by rwa [beq_iff_eq]), h]
  rfl

theorem splitOn_eq_cons (sep : α) (text : List α) : ∃ line lines, text.splitOn sep = line :: lines :=
  List.exists_cons_of_ne_nil (List.splitOnP_ne_nil _ text)

theorem place_take (h : position ≤ text.length) : ∃ line,
    (text.splitOn sep)[(place sep (text.take position)).1]? = some line ∧
    (place sep (text.take position)).2 ≤ line.length ∧
    position = lineStart (text.splitOn sep) (place sep (text.take position)).1 +
      (place sep (text.take position)).2 := by
  -- a position lies on a row of the text, not behind its end
  induction text generalizing position with
  | nil =>
    obtain rfl : position = 0 := Nat.le_zero.mp h
    exact ⟨[], rfl, Nat.le_refl 0, rfl⟩
  | cons x text ih =>
    obtain ⟨first, rest, hsplit⟩ := splitOn_eq_cons sep text
    cases position with
    | zero =>
      by_cases hx : x = sep
      · rw [hx, splitOn_cons_sep]
        exact ⟨[], rfl, Nat.zero_le _, rfl⟩
      · rw [splitOn_cons_of_ne hx hsplit]
        exact ⟨x :: first, rfl, Nat.zero_le _, rfl⟩
    | succ position =>
      obtain ⟨line, hline, hcolumn, hposition⟩ := ih (Nat.le_of_succ_le_succ h)
      rw [List.take_succ_cons, place]
      dsimp only
      generalize place sep (text.take position) = p at hline hcolumn hposition
      obtain ⟨row, column⟩ := p
      dsimp only at hline hcolumn hposition ⊢
      by_cases hx : x = sep
      · rw [if_pos hx, hx, splitOn_cons_sep]
        refine ⟨line, hline, hcolumn, ?_⟩
        rw [lineStart_cons_succ, hposition]
        simp
        omega
      · rw [if_neg hx, splitOn_cons_of_ne hx hsplit]
        rw [hsplit] at hline hposition
        cases row with
        | zero =>
          obtain rfl : first = line := Option.some.inj hline
          refine ⟨x :: first, rfl, Nat.succ_le_succ hcolumn, ?_⟩
          simp at hposition ⊢
          omega
        | succ row =>
          refine ⟨line, hline, hcolumn, ?_⟩
          simp at hposition ⊢
          omega

theorem place_lineStart (hline : (text.splitOn sep)[row]? = some line) (hcolumn : column ≤ line.length) :
    lineStart (text.splitOn sep) row + column ≤ text.length ∧
    place sep (text.take (lineStart (text.splitOn sep) row + column)) = (row, column) := by
  induction text generalizing row line column with
  | nil =>
    have hsplit : ([] : List α).splitOn sep = [[]] := List.splitOn_nil sep
    rw [hsplit] at hline ⊢
    cases row with
    | zero =>
      obtain rfl : [] = line := Option.some.inj hline
      obtain rfl : column = 0 := Nat.le_zero.mp hcolumn
      exact ⟨Nat.le_refl 0, rfl⟩
    | succ row => cases hline
  | cons x text ih =>
    obtain ⟨first, rest, hsplit⟩ := splitOn_eq_cons sep text
    by_cases hx : x = sep
    · rw [hx, splitOn_cons_sep] at hline ⊢
      cases row with
      | zero =>
        obtain rfl : [] = line := Option.some.inj hline
        obtain rfl : column = 0 := Nat.le_zero.mp hcolumn
        exact ⟨Nat.zero_le _, rfl⟩
      | succ row =>
        obtain ⟨hlength, hplace⟩ := ih hline hcolumn
        rw [lineStart_cons_succ, show ([] : List α).length + 1 + lineStart (text.splitOn sep) row + column =
          lineStart (text.splitOn sep) row + column + 1 by simp; omega, List.take_succ_cons, place, hplace]
        exact ⟨Nat.succ_le_succ hlength, if_pos rfl⟩
    · rw [splitOn_cons_of_ne hx hsplit] at hline ⊢
      rw [hsplit] at ih
      cases row with
      | zero =>
        obtain rfl : x :: first = line := Option.some.inj hline
        cases column with
        | zero => exact ⟨Nat.zero_le _, rfl⟩
        | succ column =>
          obtain ⟨hlength, hplace⟩ := @ih first 0 column rfl (Nat.le_of_succ_le_succ hcolumn)
          rw [lineStart_zero, Nat.zero_add] at hlength hplace ⊢
          rw [List.take_succ_cons, place, hplace]
          exact ⟨Nat.succ_le_succ hlength, (if_neg hx).trans (if_pos rfl)⟩
      | succ row =>
        obtain ⟨hlength, hplace⟩ := @ih line (row + 1) column hline hcolumn
        rw [lineStart_cons_succ] at hlength hplace ⊢
        rw [show (x :: first).length + 1 + lineStart rest row + column =
          first.length + 1 + lineStart rest row + column + 1 by simp; omega, List.take_succ_cons, place, hplace]
        exact ⟨Nat.succ_le_succ hlength, (if_neg hx).trans (if_neg (Nat.succ_ne_zero row))⟩

theorem drop_lineStart (hline : (text.splitOn sep)[row]? = some line) :
    sep ∉ line ∧ ∃ rest, text.drop (lineStart (text.splitOn sep) row) = line ++ rest ∧
      (rest = [] ∧ row + 1 = (text.splitOn sep).length ∨
        (∃ rest', rest = sep :: rest') ∧ row + 1 < (text.splitOn sep).length) := by
  induction text generalizing row line with
  | nil =>
    have hsplit : ([] : List α).splitOn sep = [[]] := List.splitOn_nil sep
    rw [hsplit] at hline ⊢
    cases row with
    | zero =>
      obtain rfl : [] = line := Option.some.inj hline
      exact ⟨List.not_mem_nil, [], rfl, Or.inl ⟨rfl, rfl⟩⟩
    | succ row => cases hline
  | cons x text ih =>
    obtain ⟨first, rest, hsplit⟩ := splitOn_eq_cons sep text
    by_cases hx : x = sep
    · rw [hx, splitOn_cons_sep] at hline ⊢
      cases row with
      | zero =>
        obtain rfl : [] = line := Option.some.inj hline
        exact ⟨List.not_mem_nil, sep :: text, rfl, Or.inr ⟨⟨text, rfl⟩,
          Nat.succ_lt_succ (List.length_pos_of_ne_nil (List.splitOnP_ne_nil _ text))⟩⟩
      | succ row =>
        rw [lineStart_cons_succ, show ([] : List α).length + 1 + lineStart (text.splitOn sep) row =
          lineStart (text.splitOn sep) row + 1 by simp; omega, List.length_cons, Nat.add_lt_add_iff_right, Nat.add_right_cancel_iff]
        exact ih hline
    · rw [splitOn_cons_of_ne hx hsplit] at hline ⊢
      rw [hsplit] at ih
      cases row with
      | zero =>
        obtain rfl : x :: first = line := Option.some.inj hline
        obtain ⟨hmem, rest', htext, hrest⟩ := @ih first 0 rfl
        refine ⟨fun hin => ?_, rest', ?_, hrest⟩
        · rcases List.mem_cons.mp hin with heq | hin
          · exact hx heq.symm
          · exact hmem hin
        · rw [lineStart_zero, List.drop_zero] at htext ⊢
          rw [htext]
          rfl
      | succ row =>
        have hnext := @ih line (row + 1) hline
        rw [lineStart_cons_succ] at hnext ⊢
        rw [show (x :: first).length + 1 + lineStart rest row = first.length + 1 + lineStart rest row + 1 by simp; omega]
        exact hnext

theorem length_splitOn (sep : α) (text : List α) : (text.splitOn sep).length = text.count sep + 1 := by
  induction text with
  | nil => rw [List.splitOn_nil, List.count_nil, List.length_singleton]
  | cons x text ih =>
    obtain ⟨first, rest, hsplit⟩ := splitOn_eq_cons sep text
    by_cases hx : x = sep
    · rw [hx, splitOn_cons_sep, List.length_cons, ih, List.count_cons_self]
    · rw [splitOn_cons_of_ne hx hsplit, List.count_cons_of_ne hx, ← ih, hsplit]
      rfl

end Lines

end Linux95.Base
