import Mathlib.Algebra.Order.Group.Int
import Mathlib.Tactic.Common
import Mathlib.Tactic.SplitIfs

/-! A grid of equal cells that are numbered row by row. -/

namespace Linux95.Base

structure Grid where
  left : Int
  top : Int
  cellWidth : Int
  cellHeight : Int
  columns : Nat
  rows : Nat

namespace Grid
variable (g : Grid)

def size : Nat := g.columns * g.rows

def cellLeft (slot : Nat) : Int := g.left + ((slot % g.columns : Nat) : Int) * g.cellWidth

def cellTop (slot : Nat) : Int := g.top + ((slot / g.columns : Nat) : Int) * g.cellHeight

def InCell (slot : Nat) (x y : Int) : Prop :=
  (g.cellLeft slot ≤ x ∧ x < g.cellLeft slot + g.cellWidth) ∧
    g.cellTop slot ≤ y ∧ y < g.cellTop slot + g.cellHeight

def slotAt (x y : Int) : Option Nat :=
  if 0 < g.cellWidth ∧ 0 < g.cellHeight ∧ g.left ≤ x ∧ g.top ≤ y ∧
      (x - g.left) / g.cellWidth < g.columns ∧ (y - g.top) / g.cellHeight < g.rows then
    some (((y - g.top) / g.cellHeight).toNat * g.columns + ((x - g.left) / g.cellWidth).toNat)
  else none

variable {g} {slot other : Nat} {x y : Int}

theorem inCell_iff (hw : 0 < g.cellWidth) (hh : 0 < g.cellHeight) :
    g.InCell slot x y ↔ (x - g.left) / g.cellWidth = (slot % g.columns : Nat) ∧
      (y - g.top) / g.cellHeight = (slot / g.columns : Nat) := by
  rw [Int.ediv_eq_iff_of_pos hw, Int.ediv_eq_iff_of_pos hh]
  unfold InCell cellLeft cellTop
  generalize ((slot % g.columns : Nat) : Int) * g.cellWidth = a
  generalize ((slot / g.columns : Nat) : Int) * g.cellHeight = b
  omega

theorem inCell_moved (g : Grid) (slot : Nat) (dx dy x y : Int) :
    Grid.InCell { g with left := g.left + dx, top := g.top + dy } slot x y ↔ g.InCell slot (x - dx) (y - dy) := by
  unfold InCell cellLeft cellTop
  dsimp only
  omega

theorem div_lt_rows (h : slot < g.size) : slot / g.columns < g.rows := Nat.div_lt_of_lt_mul h

theorem mod_lt_columns (h : slot < g.size) : slot % g.columns < g.columns := by
  apply Nat.mod_lt
  by_contra hnone
  unfold size at h
  rw [Nat.le_zero.mp (Nat.le_of_not_lt hnone), Nat.zero_mul] at h
  exact absurd h (Nat.not_lt_zero slot)

theorem lt_size_of_parts {column row : Nat} (hcolumn : column < g.columns) (hrow : row < g.rows) :
    row * g.columns + column < g.size ∧ (row * g.columns + column) % g.columns = column ∧
      (row * g.columns + column) / g.columns = row := by
  refine ⟨?_, ?_, ?_⟩
  · calc row * g.columns + column < row * g.columns + g.columns := Nat.add_lt_add_left hcolumn _
      _ = (row + 1) * g.columns := (Nat.succ_mul row g.columns).symm
      _ ≤ g.rows * g.columns := Nat.mul_le_mul_right _ hrow
      _ = g.size := Nat.mul_comm _ _
  · rw [Nat.mul_add_mod_self_right, Nat.mod_eq_of_lt hcolumn]
  · rw [Nat.mul_comm, Nat.mul_add_div (Nat.zero_lt_of_lt hcolumn), Nat.div_eq_of_lt hcolumn, Nat.add_zero]

theorem slotAt_eq_some : g.slotAt x y = some slot ↔ slot < g.size ∧ g.InCell slot x y := by
  constructor
  · intro h
    unfold slotAt at h
    split_ifs at h with hin
    obtain ⟨hw, hh, hx, hy, hcolumn, hrow⟩ := hin
    have hcolumn0 : 0 ≤ (x - g.left) / g.cellWidth := Int.ediv_nonneg (by omega) hw.le
    have hrow0 : 0 ≤ (y - g.top) / g.cellHeight := Int.ediv_nonneg (by omega) hh.le
    obtain ⟨hsize, hmod, hdiv⟩ := lt_size_of_parts (g := g) ((Int.toNat_lt hcolumn0).mpr hcolumn)
      ((Int.toNat_lt hrow0).mpr hrow)
    rw [Option.some.inj h] at hsize hmod hdiv
    refine ⟨hsize, (inCell_iff hw hh).mpr ⟨?_, ?_⟩⟩
    · rw [hmod, Int.toNat_of_nonneg hcolumn0]
    · rw [hdiv, Int.toNat_of_nonneg hrow0]
  · rintro ⟨hsize, hin⟩
    have hw : 0 < g.cellWidth := by
      obtain ⟨⟨hlo, hhi⟩, -⟩ := hin
      omega
    have hh : 0 < g.cellHeight := by
      obtain ⟨-, hlo, hhi⟩ := hin
      omega
    obtain ⟨hcolumn, hrow⟩ := (inCell_iff hw hh).mp hin
    have hx : 0 ≤ x - g.left := (Int.ediv_nonneg_iff_of_pos hw).mp (by rw [hcolumn]; exact Int.natCast_nonneg _)
    have hy : 0 ≤ y - g.top := (Int.ediv_nonneg_iff_of_pos hh).mp (by rw [hrow]; exact Int.natCast_nonneg _)
    unfold slotAt
    rw [hcolumn, hrow, if_pos, Int.toNat_natCast, Int.toNat_natCast, Nat.div_add_mod']
    exact ⟨hw, hh, by omega, by omega, Int.ofNat_lt.mpr (mod_lt_columns hsize),
      Int.ofNat_lt.mpr (div_lt_rows hsize)⟩

theorem mul_step {k n : Nat} {a : Int} (hk : k < n) (ha : 0 ≤ a) : (k : Int) * a + a ≤ n * a := by
  have hmul : ((k : Int) + 1) * a ≤ n * a := Int.mul_le_mul_of_nonneg_right (by omega) ha
  rwa [Int.add_mul, Int.one_mul] at hmul

theorem inCell_unique (h : slot < g.size) (h' : other < g.size) (hin : g.InCell slot x y)
    (hin' : g.InCell other x y) : slot = other :=
  Option.some.inj ((slotAt_eq_some.mpr ⟨h, hin⟩).symm.trans (slotAt_eq_some.mpr ⟨h', hin'⟩))

theorem inCell_corner (hw : 0 < g.cellWidth) (hh : 0 < g.cellHeight) (slot : Nat) :
    g.InCell slot (g.cellLeft slot) (g.cellTop slot) := ⟨⟨le_refl _, by omega⟩, le_refl _, by omega⟩

theorem cell_inside (h : slot < g.size) (hw : 0 ≤ g.cellWidth) (hh : 0 ≤ g.cellHeight) :
    (g.left ≤ g.cellLeft slot ∧ g.cellLeft slot + g.cellWidth ≤ g.left + g.columns * g.cellWidth) ∧
      g.top ≤ g.cellTop slot ∧ g.cellTop slot + g.cellHeight ≤ g.top + g.rows * g.cellHeight := by
  have hcolumn := mul_step (mod_lt_columns h) hw
  have hrow := mul_step (div_lt_rows h) hh
  have hleft := Int.mul_nonneg (Int.natCast_nonneg (slot % g.columns)) hw
  have htop := Int.mul_nonneg (Int.natCast_nonneg (slot / g.columns)) hh
  unfold cellLeft cellTop
  omega

theorem before (h : slot < other) (hw : 0 ≤ g.cellWidth ∨ g.columns = 1)
    (hh : 0 ≤ g.cellHeight) :
    g.cellTop slot + g.cellHeight ≤ g.cellTop other ∨
      g.cellTop slot = g.cellTop other ∧ g.cellLeft slot + g.cellWidth ≤ g.cellLeft other := by
  rcases (Nat.div_le_div_right h.le : slot / g.columns ≤ other / g.columns).lt_or_eq with hlt | heq
  · left
    have hrow := mul_step hlt hh
    unfold cellTop
    omega
  · right
    have hcolumn : slot % g.columns < other % g.columns := by
      have hs := Nat.div_add_mod slot g.columns
      have ho := Nat.div_add_mod other g.columns
      rw [heq] at hs
      omega
    have hpos : 0 ≤ g.cellWidth := by
      rcases hw with hw | hone
      · exact hw
      · rw [hone, Nat.mod_one, Nat.mod_one] at hcolumn
        exact absurd hcolumn (lt_irrefl _)
    have hleft := mul_step hcolumn hpos
    unfold cellTop cellLeft
    rw [heq]
    omega

end Grid

end Linux95.Base
