import Linux95.Base.Grid
import Linux95.Gui.FileManagerApp

/-! The cells in which the file manager paints its entries, and the entry a click on them selects. -/

namespace Linux95.Gui.FileManager
open Base

def visibleCapacity (content : Rect) (view : ViewMode) : Nat :=
  let area := (layout content view).entries
  match view with
  | .details => if area.height > 0 then (area.height / 18).toNat else 0
  | .icons =>
    (if area.width > 0 then (area.width / 80).toNat else 0) *
      (if area.height > 0 then (area.height / 52).toNat else 0)

/-- The loop over the entries in `FileManagerApp::draw`: the entries it paints, each with the rectangle
that is filled where the entry is selected. -/
def drawnCells (content : Rect) (entryCount : Nat) (view : ViewMode) (selected : Option Nat) :
    List (Nat × Rect) :=
  let area := (layout content view).entries
  let visibleStart := firstVisibleEntry content view selected
  let remaining := (entryCount + 2 ^ 64 - visibleStart) % 2 ^ 64
  let visibleCount :=
    if remaining < visibleCapacity content view then remaining else visibleCapacity content view
  (List.range visibleCount).filterMap fun slot =>
    let i := visibleStart + slot
    if i ≥ entryCount then none
    else
      match view with
      | .details =>
        let rowY := area.y + int32 (slot * 18 : Nat)
        if rowY + 18 > area.y + area.height then none else some (i, ⟨area.x, rowY, area.width, 18⟩)
      | .icons =>
        let columns := area.width / 80
        if columns ≤ 0 then none
        else
          let cellX := area.x + int32 (slot % columns.toNat * 80 : Nat)
          let cellY := area.y + int32 (slot / columns.toNat * 52 : Nat)
          if cellY + 52 > area.y + area.height then none else some (i, ⟨cellX, cellY, 80, 52⟩)

structure EdgesFit (content : Rect) : Prop where
  left : -2 ^ 31 ≤ content.x
  top : -2 ^ 31 ≤ content.y
  width : -2 ^ 31 ≤ content.width ∧ content.width < 2 ^ 31
  height : -2 ^ 31 ≤ content.height ∧ content.height < 2 ^ 31
  right : content.x + content.width < 2 ^ 31
  bottom : content.y + content.height < 2 ^ 31

def Roomy (content : Rect) (view : ViewMode) : Prop :=
  match view with
  | .details => 0 < (layout content view).entries.width ∧ 18 ≤ (layout content view).entries.height
  | .icons => 80 ≤ (layout content view).entries.width ∧ 52 ≤ (layout content view).entries.height

/-- A click selects the entry that is painted under it, and the cells are laid out in order. -/
structure ClicksHitCells (content : Rect) (entryCount : Nat) (view : ViewMode) (selected : Option Nat) :
    Prop where
  hit : ∀ x y i, hitTest ⟨0, 0, content.width, content.height⟩ entryCount view (x - content.x) (y - content.y)
      selected = some i ↔
    ∃ cell, (i, cell) ∈ drawnCells content entryCount view selected ∧ contains cell ⟨x, y⟩ = true
  disjoint : (drawnCells content entryCount view selected).Pairwise fun a b =>
    ∀ p, ¬ (contains a.2 p = true ∧ contains b.2 p = true)
  inside : ∀ i cell, (i, cell) ∈ drawnCells content entryCount view selected → ∀ p, contains cell p = true →
    contains (layout content view).entries p = true
  consecutive : ∃ first, (drawnCells content entryCount view selected).map Prod.fst =
    List.range' first (drawnCells content entryCount view selected).length
  ordered : (drawnCells content entryCount view selected).Pairwise fun a b =>
    a.2.y + a.2.height ≤ b.2.y ∨ a.2.y = b.2.y ∧ a.2.x + a.2.width ≤ b.2.x
  selection : Roomy content view → ∀ s, selected = some s →
    ∃ cell, (s, cell) ∈ drawnCells content entryCount view selected

def entryGrid (content : Rect) (view : ViewMode) : Grid :=
  let area := (layout content view).entries
  match view with
  | .details => ⟨area.x, area.y, area.width, 18, 1, (area.height / 18).toNat⟩
  | .icons => ⟨area.x, area.y, 80, 52, (area.width / 80).toNat, (area.height / 52).toNat⟩

def cellRect (g : Grid) (slot : Nat) : Rect := ⟨g.cellLeft slot, g.cellTop slot, g.cellWidth, g.cellHeight⟩

def hitIndex (entryCount first : Nat) (view : ViewMode) (slot : Nat) : Option Nat :=
  let index : Int :=
    (Int.ofNat first + (match view with | .details => (slot : Int) | .icons => int32 slot)) % 2 ^ 64
  if index < entryCount then some index.toNat else none

theorem contains_cellRect {g : Grid} {slot : Nat} {x y : Int} :
    contains (cellRect g slot) ⟨x, y⟩ = true ↔ g.InCell slot x y := by
  unfold contains cellRect Grid.InCell
  rw [Bool.and_eq_true, Bool.and_eq_true, Bool.and_eq_true, decide_eq_true_iff, decide_eq_true_iff,
    decide_eq_true_iff, decide_eq_true_iff]
  tauto

theorem int32_of_lt {n : Int} (h : -2 ^ 31 ≤ n) (h' : n < 2 ^ 31) : int32 n = n := by
  unfold int32
  apply Int.bmod_eq_of_le <;> omega

section Layout
variable {content : Rect} {view : ViewMode}

theorem layout_entries (content : Rect) (view : ViewMode) :
    (layout content view).entries =
      ⟨content.x, content.y + 64, (layout ⟨0, 0, content.width, content.height⟩ view).entries.width,
        (layout ⟨0, 0, content.width, content.height⟩ view).entries.height⟩ := by
  have hheight : ∀ y h : Int,
      (if (if y + (if h > 0 then h else 0) > y + 20 then y + (if h > 0 then h else 0) - 20 else y + 64) > y + 64
        then (if y + (if h > 0 then h else 0) > y + 20 then y + (if h > 0 then h else 0) - 20 else y + 64) -
          (y + 64) else 0) = if h > 84 then h - 84 else 0 := by
    intro y h
    split_ifs <;> omega
  unfold layout
  dsimp only
  rw [hheight, hheight]

theorem entryGrid_moved (content : Rect) (view : ViewMode) :
    entryGrid content view =
      { entryGrid ⟨0, 0, content.width, content.height⟩ view with
        left := (entryGrid ⟨0, 0, content.width, content.height⟩ view).left + content.x
        top := (entryGrid ⟨0, 0, content.width, content.height⟩ view).top + content.y } := by
  unfold entryGrid
  dsimp only
  rw [layout_entries content view, layout_entries ⟨0, 0, content.width, content.height⟩ view]
  dsimp only
  cases view with
  | details =>
    dsimp only
    rw [Int.zero_add, Int.zero_add, Int.add_comm]
  | icons =>
    dsimp only
    rw [Int.zero_add, Int.zero_add, Int.add_comm]

theorem inCell_entryGrid (content : Rect) (view : ViewMode) (slot : Nat) (x y : Int) :
    (entryGrid ⟨0, 0, content.width, content.height⟩ view).InCell slot (x - content.x) (y - content.y) ↔
      (entryGrid content view).InCell slot x y := by
  rw [entryGrid_moved content view]
  exact (Grid.inCell_moved _ _ _ _ _ _).symm

theorem size_entryGrid (content : Rect) (view : ViewMode) :
    (entryGrid ⟨0, 0, content.width, content.height⟩ view).size = (entryGrid content view).size := by
  rw [entryGrid_moved content view]
  rfl

theorem visibleCapacity_eq (content : Rect) (view : ViewMode) :
    visibleCapacity content view = (entryGrid content view).size := by
  have hcut : ∀ a k : Int, 0 < k → (if a > 0 then (a / k).toNat else 0) = (a / k).toNat := by
    intro a k hk
    split_ifs with ha
    · rfl
    · exact (Int.toNat_of_nonpos (Int.ediv_nonpos_of_nonpos_of_neg (by omega) hk)).symm
  unfold visibleCapacity entryGrid Grid.size
  cases view with
  | details =>
    dsimp only
    rw [hcut _ _ (by decide), Nat.one_mul]
  | icons =>
    dsimp only
    rw [hcut _ _ (by decide), hcut _ _ (by decide)]

theorem firstVisibleEntry_eq (content : Rect) (view : ViewMode) (selected : Option Nat) :
    firstVisibleEntry content view selected =
      selected.getD 0 / (entryGrid content view).size * (entryGrid content view).size := by
  have hpage : ∀ capacity slot : Nat, (if capacity = 0 ∨ slot < capacity then 0 else slot / capacity * capacity) =
      slot / capacity * capacity := by
    intro capacity slot
    split_ifs with hfirst
    · rcases hfirst with hzero | hlt
      · rw [hzero, Nat.mul_zero]
      · rw [Nat.div_eq_of_lt hlt, Nat.zero_mul]
    · rfl
  unfold firstVisibleEntry entryGrid Grid.size
  cases selected with
  | none => rw [Option.getD_none, Nat.zero_div, Nat.zero_mul]
  | some s =>
    cases view with
    | details =>
      dsimp only
      rw [hpage, Nat.one_mul, Option.getD_some]
    | icons =>
      dsimp only
      rw [hpage, Option.getD_some]

end Layout

section Drawing
variable {content : Rect} {n : Nat} {view : ViewMode} {selected : Option Nat}

theorem firstVisibleEntry_le (hsel : ∀ s, selected = some s → s < n) : firstVisibleEntry content view selected ≤ n := by
  rw [firstVisibleEntry_eq]
  refine (Nat.div_mul_le_self _ _).trans ?_
  cases selected with
  | none => exact Nat.zero_le n
  | some s => exact (hsel s rfl).le

theorem firstVisibleEntry_eq_zero (hn : n ≤ maxEntries) (hsel : ∀ s, selected = some s → s < n)
    (hsize : maxEntries ≤ (entryGrid content view).size) : firstVisibleEntry content view selected = 0 := by
  have hlt : selected.getD 0 < (entryGrid content view).size := by
    have hmax : maxEntries = 128 := rfl
    cases selected with
    | none =>
      rw [Option.getD_none]
      omega
    | some s =>
      have hs := hsel s rfl
      rw [Option.getD_some]
      omega
  rw [firstVisibleEntry_eq, Nat.div_eq_of_lt hlt, Nat.zero_mul]

def visibleCount (content : Rect) (n : Nat) (view : ViewMode) (selected : Option Nat) : Nat :=
  min (n - firstVisibleEntry content view selected) (entryGrid content view).size

theorem cellRect_entryGrid {slot : Nat} (hslot : slot < 128) :
    cellRect (entryGrid content view) slot =
      match view with
      | .details =>
        ⟨(layout content view).entries.x, (layout content view).entries.y + int32 (slot * 18 : Nat),
          (layout content view).entries.width, 18⟩
      | .icons =>
        ⟨(layout content view).entries.x +
            int32 (slot % ((layout content view).entries.width / 80).toNat * 80 : Nat),
          (layout content view).entries.y +
            int32 (slot / ((layout content view).entries.width / 80).toNat * 52 : Nat), 80, 52⟩ := by
  have hmod : ∀ k, slot % k ≤ slot := fun k => Nat.mod_le slot k
  have hdiv : ∀ k, slot / k ≤ slot := fun k => Nat.div_le_self slot k
  unfold cellRect Grid.cellLeft Grid.cellTop entryGrid
  cases view with
  | details =>
    dsimp only
    rw [int32_of_lt (by omega) (by omega), Nat.mod_one, Nat.div_one, Int.natCast_mul, Int.natCast_zero,
      Int.zero_mul, Int.add_zero]
    rfl
  | icons =>
    dsimp only
    have hcolumn := hmod ((layout content .icons).entries.width / 80).toNat
    have hrow := hdiv ((layout content .icons).entries.width / 80).toNat
    rw [int32_of_lt (by omega) (by omega), int32_of_lt (by omega) (by omega), Int.natCast_mul, Int.natCast_mul]
    rfl

theorem drawnCells_eq (hn : n ≤ maxEntries) (hsel : ∀ s, selected = some s → s < n) :
    drawnCells content n view selected = (List.range (visibleCount content n view selected)).map fun slot =>
      (firstVisibleEntry content view selected + slot, cellRect (entryGrid content view) slot) := by
  have hmax : maxEntries = 128 := rfl
  have hfirst : firstVisibleEntry content view selected ≤ n := firstVisibleEntry_le hsel
  have hremaining : (n + 2 ^ 64 - firstVisibleEntry content view selected) % 2 ^ 64 =
      n - firstVisibleEntry content view selected := by omega
  have hcount : (if n - firstVisibleEntry content view selected < visibleCapacity content view then
      n - firstVisibleEntry content view selected else visibleCapacity content view) =
        visibleCount content n view selected := by
    rw [visibleCapacity_eq]
    unfold visibleCount
    split_ifs <;> omega
  unfold drawnCells
  dsimp only
  rw [hremaining, hcount]
  apply List.filterMap_eq_map_iff_forall_eq_some.mpr
  intro slot hslot
  have hlt : slot < visibleCount content n view selected := List.mem_range.mp hslot
  unfold visibleCount at hlt
  have hsize : slot < (entryGrid content view).size := by omega
  have hrow := Grid.div_lt_rows hsize
  have hcolumn := Grid.mod_lt_columns hsize
  have hcell := @cellRect_entryGrid content view slot (by omega)
  rw [if_neg (by omega), hcell]
  cases view with
  | details =>
    dsimp only
    unfold entryGrid at hrow
    dsimp only at hrow
    rw [if_neg]
    rw [int32_of_lt (by omega) (by omega)]
    rw [Nat.div_one] at hrow
    omega
  | icons =>
    dsimp only
    unfold entryGrid at hrow hcolumn
    dsimp only at hrow hcolumn
    have hle := Nat.div_le_self slot ((layout content .icons).entries.width / 80).toNat
    rw [if_neg (by omega), if_neg]
    rw [int32_of_lt (n := (slot / ((layout content .icons).entries.width / 80).toNat * 52 : Nat)) (by omega) (by omega)]
    omega

theorem mem_drawnCells (hn : n ≤ maxEntries) (hsel : ∀ s, selected = some s → s < n) {i : Nat} {cell : Rect} :
    (i, cell) ∈ drawnCells content n view selected ↔
      ∃ slot, slot < visibleCount content n view selected ∧ i = firstVisibleEntry content view selected + slot ∧
        cell = cellRect (entryGrid content view) slot := by
  rw [drawnCells_eq hn hsel, List.mem_map]
  constructor
  · rintro ⟨slot, hslot, heq⟩
    obtain ⟨rfl, rfl⟩ := Prod.mk.inj heq
    exact ⟨slot, List.mem_range.mp hslot, rfl, rfl⟩
  · rintro ⟨slot, hslot, rfl, rfl⟩
    exact ⟨slot, List.mem_range.mpr hslot, rfl⟩

end Drawing

section Hitting
variable {content : Rect} {n : Nat} {view : ViewMode} {selected : Option Nat} {x y : Int}

theorem hitIndex_eq_some {first slot i : Nat} :
    hitIndex n first view slot = some i ↔
      (Int.ofNat first + (match view with | .details => (slot : Int) | .icons => int32 slot)) % 2 ^ 64 = i ∧ i < n := by
  unfold hitIndex
  dsimp only
  generalize (Int.ofNat first + (match view with | .details => (slot : Int) | .icons => int32 slot)) = index
  have hnonneg : 0 ≤ index % 2 ^ 64 := Int.emod_nonneg _ (by decide)
  constructor
  · intro h
    split_ifs at h with hlt
    obtain rfl := Option.some.inj h
    omega
  · rintro ⟨heq, hlt⟩
    rw [heq, if_pos (Int.ofNat_lt.mpr hlt), Int.toNat_natCast]

theorem hitTest_eq (hn : n ≤ maxEntries) :
    hitTest content n view x y selected =
      ((entryGrid content view).slotAt x y).bind (hitIndex n (firstVisibleEntry content view selected) view) := by
  have hempty : ∀ slot, n = 0 → hitIndex n (firstVisibleEntry content view selected) view slot = none := by
    intro slot hzero
    rw [Option.eq_none_iff_forall_ne_some]
    intro i hi
    have hlt := (hitIndex_eq_some.mp hi).2
    omega
  unfold hitTest
  rw [if_neg (Nat.not_lt.mpr hn)]
  dsimp only
  by_cases hzero : n = 0
  · rw [if_pos (Or.inl hzero)]
    cases (entryGrid content view).slotAt x y with
    | none => rfl
    | some slot => exact (hempty slot hzero).symm
  generalize firstVisibleEntry content view selected = first
  unfold entryGrid Grid.slotAt hitIndex
  cases view with
  | details =>
    dsimp only
    generalize (layout content .details).entries = area
    -- the details view has one column, as wide as the area
    have hcolumn : 0 < area.width → area.x ≤ x →
        ((x - area.x) / area.width < (1 : Nat) ↔ x < area.x + area.width) ∧
          (x < area.x + area.width → (x - area.x) / area.width = 0) := by
      intro hw hx
      have hiff := Int.ediv_lt_iff_lt_mul (a := x - area.x) (b := 1) hw
      rw [Int.one_mul] at hiff
      refine ⟨hiff.trans (by omega), fun hlt => Int.ediv_eq_zero_of_lt (by omega) (by omega)⟩
    split_ifs with hout hin hbelow hin hin
    · obtain ⟨hw, -, hx, hy, hlt, hrow⟩ := hin
      have hright := (hcolumn hw hx).1.mp hlt
      exfalso
      omega
    · rfl
    · exfalso
      omega
    · rfl
    · obtain ⟨hw, -, hx, hy, hlt, hrow⟩ := hin
      have hleft := (hcolumn hw hx).2 ((hcolumn hw hx).1.mp hlt)
      have hslot : ((((y - area.y) / 18).toNat * 1 + ((x - area.x) / area.width).toNat : Nat) : Int) =
          (y - area.y) / 18 := by
        rw [hleft]
        omega
      rw [Option.bind_some, hslot]
    · have hw : 0 < area.width := by omega
      have hx : area.x ≤ x := by omega
      have hlt := (hcolumn hw hx).1.mpr (by omega)
      exfalso
      omega
  -- the tests of the source are those of the grid
  | icons =>
    dsimp only
    generalize (layout content .icons).entries = area
    split_ifs with hout hin hbelow hin hin
    · exfalso
      omega
    · rfl
    · exfalso
      omega
    · rfl
    · have hslot : ((((y - area.y) / 52).toNat * (area.width / 80).toNat + ((x - area.x) / 80).toNat : Nat) : Int) =
          (y - area.y) / 52 * (area.width / 80) + (x - area.x) / 80 := by
        rw [Int.natCast_add, Int.natCast_mul, Int.toNat_of_nonneg (by omega), Int.toNat_of_nonneg (by omega),
          Int.toNat_of_nonneg (by omega)]
      rw [Option.bind_some, hslot]
    · exfalso
      omega

theorem layout_height_lt (h : content.height < 2 ^ 31) : (layout content view).entries.height < 2 ^ 31 := by
  unfold layout
  dsimp only
  split_ifs <;> omega

theorem size_details (h : content.height < 2 ^ 31) : (entryGrid content .details).size < 2 ^ 31 := by
  have hheight : (layout content .details).entries.height < 2 ^ 31 := layout_height_lt h
  unfold entryGrid Grid.size
  dsimp only
  omega

/-- The slots of the icons are told apart by 32 bits, or there is no entry to hit. -/
def SlotsFit (content : Rect) (entryCount : Nat) (view : ViewMode) : Prop :=
  view = .icons → entryCount ≠ 0 → visibleCapacity content view ≤ 2 ^ 32

theorem hitIndex_drawn (hedges : EdgesFit content) (hn : n ≤ maxEntries) (hsel : ∀ s, selected = some s → s < n)
    (hfit : SlotsFit content n view) {slot i : Nat} (hslot : slot < (entryGrid content view).size) :
    hitIndex n (firstVisibleEntry content view selected) view slot = some i ↔
      slot < visibleCount content n view selected ∧ i = firstVisibleEntry content view selected + slot := by
  have hmax : maxEntries = 128 := rfl
  have hfirst : firstVisibleEntry content view selected ≤ n := firstVisibleEntry_le hsel
  have hcount : slot < visibleCount content n view selected ↔ firstVisibleEntry content view selected + slot < n := by
    unfold visibleCount
    omega
  have hsmall : ∀ k : Int, k = slot → ((Int.ofNat (firstVisibleEntry content view selected) + k) % 2 ^ 64 = i ∧ i < n ↔
      firstVisibleEntry content view selected + slot < n ∧ i = firstVisibleEntry content view selected + slot) := by
    have hbound : slot < 2 ^ 32 ∨ n = 0 := by
      cases view with
      | details => exact Or.inl (by have := size_details hedges.height.2; omega)
      | icons =>
        by_cases hzero : n = 0
        · exact Or.inr hzero
        · have hcapacity := hfit rfl hzero
          rw [visibleCapacity_eq] at hcapacity
          exact Or.inl (by omega)
    rintro k rfl
    rw [Int.ofNat_eq_natCast]
    omega
  rw [hitIndex_eq_some, hcount]
  cases view with
  | details => exact hsmall _ rfl
  | icons =>
    dsimp only
    by_cases hlow : slot < 2 ^ 31
    · exact hsmall _ (int32_of_lt (by omega) (by omega))
    · -- The 32-bit value is negative and its index lies behind the last entry.
      by_cases hzero : n = 0
      · omega
      have hcapacity := hfit rfl hzero
      rw [visibleCapacity_eq] at hcapacity
      have hstart : firstVisibleEntry content .icons selected = 0 :=
        firstVisibleEntry_eq_zero hn hsel (by omega)
      have hnegative : int32 slot = (slot : Int) - 2 ^ 32 := by
        unfold int32
        rw [← Int.sub_bmod_right, Int.bmod_eq_of_le (by omega) (by omega)]
        rfl
      rw [hstart, hnegative, Int.ofNat_eq_natCast]
      omega

theorem hitIndex_wraps (hn : 0 < n) (hn' : n ≤ maxEntries) (hsel : ∀ s, selected = some s → s < n)
    (hsize : 2 ^ 32 < (entryGrid content .icons).size) :
    firstVisibleEntry content .icons selected = 0 ∧
      hitIndex n (firstVisibleEntry content .icons selected) .icons (2 ^ 32) = some 0 := by
  have hmax : maxEntries = 128 := rfl
  have hstart : firstVisibleEntry content .icons selected = 0 := firstVisibleEntry_eq_zero hn' hsel (by omega)
  refine ⟨hstart, hitIndex_eq_some.mpr ⟨?_, hn⟩⟩
  rw [hstart]
  decide

end Hitting

section Cells
variable {content : Rect} {n : Nat} {view : ViewMode} {selected : Option Nat}

theorem cell_in_area {slot : Nat} (hslot : slot < (entryGrid content view).size) {x y : Int}
    (hin : (entryGrid content view).InCell slot x y) :
    contains (layout content view).entries ⟨x, y⟩ = true := by
  have hw : 0 ≤ (entryGrid content view).cellWidth := by
    obtain ⟨⟨hlo, hhi⟩, -⟩ := hin
    omega
  have hh : 0 ≤ (entryGrid content view).cellHeight := by
    obtain ⟨-, hlo, hhi⟩ := hin
    omega
  obtain ⟨⟨hleft, hright⟩, htop, hbottom⟩ := Grid.cell_inside hslot hw hh
  obtain ⟨⟨hx, hx'⟩, hy, hy'⟩ := hin
  have harea : (entryGrid content view).left = (layout content view).entries.x ∧
      (entryGrid content view).top = (layout content view).entries.y ∧
      (entryGrid content view).columns * (entryGrid content view).cellWidth ≤
        max 0 (layout content view).entries.width ∧
      (entryGrid content view).rows * (entryGrid content view).cellHeight ≤
        max 0 (layout content view).entries.height := by
    unfold entryGrid
    cases view with
    | details => refine ⟨rfl, rfl, ?_, ?_⟩ <;> dsimp only <;> omega
    | icons => refine ⟨rfl, rfl, ?_, ?_⟩ <;> dsimp only <;> omega
  unfold contains
  rw [Bool.and_eq_true, Bool.and_eq_true, Bool.and_eq_true, decide_eq_true_iff, decide_eq_true_iff,
    decide_eq_true_iff, decide_eq_true_iff]
  dsimp only
  omega

theorem drawnCells_pairwise (hn : n ≤ maxEntries) (hsel : ∀ s, selected = some s → s < n) {R : Rect → Rect → Prop}
    (hR : ∀ slot other, slot < other → other < (entryGrid content view).size →
      R (cellRect (entryGrid content view) slot) (cellRect (entryGrid content view) other)) :
    (drawnCells content n view selected).Pairwise fun a b => R a.2 b.2 := by
  rw [drawnCells_eq hn hsel]
  refine List.pairwise_map.mpr (List.pairwise_lt_range.imp_of_mem fun {slot other} _ hother hlt => ?_)
  have hcount := List.mem_range.mp hother
  unfold visibleCount at hcount
  exact hR slot other hlt (by omega)

theorem roomy_size (h : Roomy content view) : 0 < (entryGrid content view).size := by
  unfold Roomy at h
  unfold entryGrid Grid.size
  cases view with
  | details =>
    dsimp only at h ⊢
    omega
  | icons =>
    dsimp only at h ⊢
    exact Nat.mul_pos (by omega) (by omega)

theorem selected_drawn (hn : n ≤ maxEntries) (hsel : ∀ s, selected = some s → s < n) (hroom : Roomy content view)
    {s : Nat} (hs : selected = some s) : ∃ cell, (s, cell) ∈ drawnCells content n view selected := by
  have hsize := roomy_size hroom
  have hpage : firstVisibleEntry content view selected + s % (entryGrid content view).size = s := by
    rw [firstVisibleEntry_eq, hs, Option.getD_some]
    exact Nat.div_add_mod' s _
  have hlt := hsel s hs
  refine ⟨_, (mem_drawnCells hn hsel).mpr ⟨s % (entryGrid content view).size, ?_, hpage.symm, rfl⟩⟩
  unfold visibleCount
  exact Nat.lt_min.mpr ⟨by omega, Nat.mod_lt _ hsize⟩

theorem cells_hit (hedges : EdgesFit content) (hn : n ≤ maxEntries) (hsel : ∀ s, selected = some s → s < n)
    (hfit : SlotsFit content n view) (x y : Int) (i : Nat) :
    hitTest ⟨0, 0, content.width, content.height⟩ n view (x - content.x) (y - content.y) selected = some i ↔
      ∃ cell, (i, cell) ∈ drawnCells content n view selected ∧ contains cell ⟨x, y⟩ = true := by
  have hmoved : ∀ slot, (entryGrid ⟨0, 0, content.width, content.height⟩ view).slotAt (x - content.x) (y - content.y) =
      some slot ↔ slot < (entryGrid content view).size ∧ (entryGrid content view).InCell slot x y := by
    intro slot
    rw [Grid.slotAt_eq_some, size_entryGrid, inCell_entryGrid]
  have hstart : firstVisibleEntry ⟨0, 0, content.width, content.height⟩ view selected =
      firstVisibleEntry content view selected := by
    rw [firstVisibleEntry_eq, firstVisibleEntry_eq, size_entryGrid]
  rw [hitTest_eq hn, Option.bind_eq_some_iff, hstart]
  constructor
  · rintro ⟨slot, hslot, hindex⟩
    obtain ⟨hsize, hin⟩ := (hmoved slot).mp hslot
    obtain ⟨hcount, hi⟩ := (hitIndex_drawn hedges hn hsel hfit hsize).mp hindex
    exact ⟨_, (mem_drawnCells hn hsel).mpr ⟨slot, hcount, hi, rfl⟩, contains_cellRect.mpr hin⟩
  · rintro ⟨cell, hmem, hin⟩
    obtain ⟨slot, hcount, hi, rfl⟩ := (mem_drawnCells hn hsel).mp hmem
    have hsize : slot < (entryGrid content view).size := by
      unfold visibleCount at hcount
      omega
    exact ⟨slot, (hmoved slot).mpr ⟨hsize, contains_cellRect.mp hin⟩,
      (hitIndex_drawn hedges hn hsel hfit hsize).mpr ⟨hcount, hi⟩⟩

theorem wrapped_slot_hit (hn : 0 < n) (hn' : n ≤ maxEntries) (hsel : ∀ s, selected = some s → s < n)
    (hsize : 2 ^ 32 < (entryGrid content .icons).size) :
    ∃ x y, hitTest ⟨0, 0, content.width, content.height⟩ n .icons (x - content.x) (y - content.y) selected = some 0 ∧
      ¬ ∃ cell, (0, cell) ∈ drawnCells content n .icons selected ∧ contains cell ⟨x, y⟩ = true := by
  have hin := Grid.inCell_corner (g := entryGrid content .icons) (show (0 : Int) < 80 by decide)
    (show (0 : Int) < 52 by decide) (2 ^ 32)
  have hsame := size_entryGrid content .icons
  obtain ⟨hstart, hindex⟩ := @hitIndex_wraps ⟨0, 0, content.width, content.height⟩ n selected hn hn' hsel
    (by rw [hsame]; exact hsize)
  refine ⟨(entryGrid content .icons).cellLeft (2 ^ 32), (entryGrid content .icons).cellTop (2 ^ 32), ?_, ?_⟩
  · rw [hitTest_eq hn', Option.bind_eq_some_iff]
    exact ⟨2 ^ 32, Grid.slotAt_eq_some.mpr
      ⟨by rw [hsame]; exact hsize, (inCell_entryGrid content .icons _ _ _).mpr hin⟩, hindex⟩
  · rintro ⟨cell, hmem, hcell⟩
    obtain ⟨slot, hcount, hzero, rfl⟩ := (mem_drawnCells hn' hsel).mp hmem
    have hslot : slot = 0 := by omega
    rw [hslot] at hcell
    have hunique := Grid.inCell_unique (by omega) hsize (contains_cellRect.mp hcell) hin
    exact absurd hunique (by decide)

end Cells

/-- Clicks hit what is painted exactly where the number of a slot fits the arithmetic of `hit_test`. -/
theorem clicks_hit_cells (content : Rect) (entryCount : Nat) (view : ViewMode) (selected : Option Nat)
    (hedges : EdgesFit content) (hn : entryCount ≤ maxEntries) (hsel : ∀ s, selected = some s → s < entryCount) :
    ClicksHitCells content entryCount view selected ↔ SlotsFit content entryCount view := by
  constructor
  · rintro h rfl hzero
    by_contra hmany
    rw [visibleCapacity_eq] at hmany
    obtain ⟨x, y, hhit, hnot⟩ := wrapped_slot_hit (Nat.pos_of_ne_zero hzero) hn hsel (Nat.lt_of_not_le hmany)
    exact hnot ((h.hit x y 0).mp hhit)
  · intro hfit
    refine ⟨cells_hit hedges hn hsel hfit, ?_, ?_, ?_, ?_, fun hroom s hs => selected_drawn hn hsel hroom hs⟩
    · refine drawnCells_pairwise (R := fun a b => ∀ p, ¬ (contains a p = true ∧ contains b p = true)) hn hsel
        fun slot other hlt hother p hboth => ?_
      have hunique := Grid.inCell_unique (hlt.trans hother) hother (contains_cellRect.mp hboth.1)
        (contains_cellRect.mp hboth.2)
      omega
    · rintro i cell hmem p hp
      obtain ⟨slot, hcount, -, rfl⟩ := (mem_drawnCells hn hsel).mp hmem
      unfold visibleCount at hcount
      exact cell_in_area (by omega) (contains_cellRect.mp hp)
    · refine ⟨firstVisibleEntry content view selected, ?_⟩
      rw [drawnCells_eq hn hsel, List.map_map, List.length_map, List.length_range, List.range'_eq_map_range]
      rfl
    · refine drawnCells_pairwise (R := fun a b => a.y + a.height ≤ b.y ∨ a.y = b.y ∧ a.x + a.width ≤ b.x) hn hsel
        fun slot other hlt hother => ?_
      refine Grid.before hlt ?_ ?_
      · cases view with
        | details => exact Or.inr rfl
        | icons => exact Or.inl (by decide : (0 : Int) ≤ 80)
      · cases view with
        | details => exact (by decide : (0 : Int) ≤ 18)
        | icons => exact (by decide : (0 : Int) ≤ 52)

/-- Five icons in a window of ordinary size, the fourth selected. -/
theorem clicks_hit_cells_five : ClicksHitCells ⟨10, 40, 320, 200⟩ 5 .icons (some 3) :=
  (clicks_hit_cells ⟨10, 40, 320, 200⟩ 5 .icons (some 3)
    ⟨by decide, by decide, by decide, by decide, by decide, by decide⟩ (by decide)
    (fun s hs => Option.some.inj hs ▸ (by decide : 3 < 5))).mpr fun _ _ => by decide

/-- In a window of 26843545 columns and 162 rows, slot `2 ^ 32` hits the only entry. -/
theorem click_beside_cell :
    EdgesFit ⟨0, 0, 2147483647, 8536⟩ ∧
    hitTest ⟨0, 0, 2147483647, 8536⟩ 1 .icons 7680 8384 none = some 0 ∧
    drawnCells ⟨0, 0, 2147483647, 8536⟩ 1 .icons none = [(0, ⟨0, 64, 80, 52⟩)] ∧
    ¬ ClicksHitCells ⟨0, 0, 2147483647, 8536⟩ 1 .icons none := by
  have hhit : hitTest ⟨0, 0, 2147483647, 8536⟩ 1 .icons 7680 8384 none = some 0 := by decide +kernel
  have hcells : drawnCells ⟨0, 0, 2147483647, 8536⟩ 1 .icons none = [(0, ⟨0, 64, 80, 52⟩)] := by decide +kernel
  refine ⟨⟨by decide, by decide, by decide, by decide, by decide, by decide⟩, hhit, hcells, fun h => ?_⟩
  obtain ⟨cell, hmem, hcell⟩ := (h.hit 7680 8384 0).mp hhit
  rw [hcells, List.mem_singleton] at hmem
  rw [(Prod.mk.inj hmem).2] at hcell
  exact absurd hcell (by decide)

end Linux95.Gui.FileManager
