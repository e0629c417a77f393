import Mathlib.Data.List.Chain
import Mathlib.Data.List.Range
import Linux95.Base.DiscreteLine
import Linux95.Gui.Renderer

/-! `draw_line`: the points it plots, and how far its arithmetic reaches. `clip_rect`: the part of a rectangle
that is on the screen. -/

namespace Linux95.Gui
open Base Base.Drawing

/-- Why a run of `draw_line` gives no list of points. -/
inductive LineStop where
  | overflow
  | unfinished
  deriving DecidableEq, Repr

/-- The result of an operation on `int32_t`, which is undefined outside of its range. -/
def checked32 (n : Int) : Except LineStop Int :=
  if -2 ^ 31 ≤ n ∧ n < 2 ^ 31 then .ok n else .error .overflow

def addIf (c : Prop) [Decidable c] (value delta : Int) : Except LineStop Int :=
  if c then checked32 (value + delta) else .ok value

/-- The loop of `draw_line` with its operations checked: the points it plots. -/
def lineLoop (x1 y1 dx dy sx sy : Int) : Nat → Int → Int → Int → Except LineStop (List Point)
  | 0, _, _, _ => .error .unfinished
  | fuel + 1, x, y, error =>
    if x = x1 ∧ y = y1 then .ok [⟨x, y⟩]
    else do
      let twiceError ← checked32 (error * 2)
      let error ← addIf (twiceError ≥ dy) error dy
      let nextX ← addIf (twiceError ≥ dy) x sx
      let error ← addIf (twiceError ≤ dx) error dx
      let nextY ← addIf (twiceError ≤ dx) y sy
      let rest ← lineLoop x1 y1 dx dy sx sy fuel nextX nextY error
      pure (⟨x, y⟩ :: rest)

def linePlots (fuel : Nat) (x0 y0 x1 y1 : Int) : Except LineStop (List Point) := do
  let dx ← checked32 (if x1 ≥ x0 then x1 - x0 else x0 - x1)
  let sx := if x0 < x1 then 1 else -1
  let dy ← checked32 (if y1 ≥ y0 then y0 - y1 else y1 - y0)
  let sy := if y0 < y1 then 1 else -1
  let error ← checked32 (dx + dy)
  lineLoop x1 y1 dx dy sx sy fuel x0 y0 error

section Loop
variable (x0 y0 sx sy : Int) (D E : Nat)

def lineAt (i : Nat) : Point := ⟨x0 + sx * lineX D E i, y0 + sy * lineY D E i⟩

def errorAt (i : Nat) : Int := D * (lineY D E i + 1) - E * (lineX D E i + 1)

variable {x0 y0 sx sy D E} {i : Nat}

theorem error_tests :
    (errorAt D E i * 2 ≥ -E ↔ E * (2 * lineX D E i + 1) ≤ 2 * (D * (lineY D E i + 1))) ∧
    (errorAt D E i * 2 ≤ D ↔ D * (2 * lineY D E i + 1) ≤ 2 * (E * (lineX D E i + 1))) := by
  have hcast : (errorAt D E i * 2 : Int) =
      (2 * (D * (lineY D E i + 1)) : Nat) - (2 * (E * (lineX D E i + 1)) : Nat) := by
    unfold errorAt
    push_cast
    ring
  have hx : E * (2 * lineX D E i + 1) + E = 2 * (E * (lineX D E i + 1)) := by ring
  have hy : D * (2 * lineY D E i + 1) + D = 2 * (D * (lineY D E i + 1)) := by ring
  rw [hcast]
  omega

theorem line_advance (h : i < max D E) :
    (if errorAt D E i * 2 ≥ -E then (lineAt x0 y0 sx sy D E i).x + sx else (lineAt x0 y0 sx sy D E i).x) =
      (lineAt x0 y0 sx sy D E (i + 1)).x ∧
    (if errorAt D E i * 2 ≤ D then (lineAt x0 y0 sx sy D E i).y + sy else (lineAt x0 y0 sx sy D E i).y) =
      (lineAt x0 y0 sx sy D E (i + 1)).y ∧
    (if errorAt D E i * 2 ≤ D then
        (if errorAt D E i * 2 ≥ -E then errorAt D E i + -E else errorAt D E i) + D
      else if errorAt D E i * 2 ≥ -E then errorAt D E i + -E else errorAt D E i) = errorAt D E (i + 1) := by
  obtain ⟨htestX, htestY⟩ := @error_tests D E i
  have hx := lineX_succ h
  have hy := lineY_succ h
  rw [if_congr htestX.symm rfl rfl] at hx
  rw [if_congr htestY.symm rfl rfl] at hy
  have hnext : errorAt D E (i + 1) = D * (lineY D E (i + 1) + 1) - E * (lineX D E (i + 1) + 1) := rfl
  unfold lineAt
  dsimp only
  rw [hnext, hx, hy]
  refine ⟨?_, ?_, ?_⟩
  · split_ifs
    · push_cast
      ring
    · rfl
  · split_ifs
    · push_cast
      ring
    · rfl
  · unfold errorAt
    split_ifs
    all_goals
      push_cast
      ring

theorem error_range (h : i < max D E) :
    (-(3 * max D E : Nat) ≤ errorAt D E i * 2 ∧ errorAt D E i * 2 ≤ (3 * max D E : Nat)) ∧
    (errorAt D E i * 2 ≥ -E → -(3 * max D E : Nat) ≤ (errorAt D E i + -E) * 2) ∧
    (errorAt D E i * 2 ≤ D → (errorAt D E i + D) * 2 ≤ (3 * max D E : Nat)) := by
  -- three halves of the longer extent bound the error, also between its two updates
  have hbounds := line_bounds h
  have hcast : errorAt D E i = ((D * lineY D E i : Nat) + D) - ((E * lineX D E i : Nat) + E) := by
    unfold errorAt
    push_cast
    ring
  rw [hcast]
  by_cases hle : E ≤ D
  · rw [if_pos hle] at hbounds
    rw [Nat.max_eq_left hle]
    omega
  · rw [if_neg hle] at hbounds
    rw [Nat.max_eq_right (by omega)]
    omega

theorem checked32_eq {n : Int} (h : -2 ^ 31 ≤ n ∧ n < 2 ^ 31) : checked32 n = .ok n := if_pos h

theorem addIf_eq {c : Prop} [Decidable c] {value delta : Int}
    (h : c → -2 ^ 31 ≤ value + delta ∧ value + delta < 2 ^ 31) :
    addIf c value delta = .ok (if c then value + delta else value) := by
  unfold addIf
  split_ifs with hc
  · exact checked32_eq (h hc)
  · rfl

theorem lineLoop_succ {x1 y1 dx dy sx sy x y error : Int} {fuel : Nat} (hend : ¬ (x = x1 ∧ y = y1))
    (htwice : -2 ^ 31 ≤ error * 2 ∧ error * 2 < 2 ^ 31)
    (hdown : error * 2 ≥ dy → -2 ^ 31 ≤ error + dy ∧ error + dy < 2 ^ 31)
    (hx : error * 2 ≥ dy → -2 ^ 31 ≤ x + sx ∧ x + sx < 2 ^ 31)
    (hup : error * 2 ≤ dx → -2 ^ 31 ≤ (if error * 2 ≥ dy then error + dy else error) + dx ∧
      (if error * 2 ≥ dy then error + dy else error) + dx < 2 ^ 31)
    (hy : error * 2 ≤ dx → -2 ^ 31 ≤ y + sy ∧ y + sy < 2 ^ 31) :
    lineLoop x1 y1 dx dy sx sy (fuel + 1) x y error =
      (lineLoop x1 y1 dx dy sx sy fuel (if error * 2 ≥ dy then x + sx else x)
        (if error * 2 ≤ dx then y + sy else y)
        (if error * 2 ≤ dx then (if error * 2 ≥ dy then error + dy else error) + dx
          else if error * 2 ≥ dy then error + dy else error)).map fun rest => ⟨x, y⟩ :: rest := by
  have hdown' := addIf_eq hdown
  have hx' := addIf_eq hx
  have hup' := addIf_eq hup
  have hy' := addIf_eq hy
  rw [lineLoop, if_neg hend, checked32_eq htwice]
  simp only [hdown', hx', hup', hy', bind, Except.bind]
  cases lineLoop x1 y1 dx dy sx sy fuel _ _ _ with
  | error stop => rfl
  | ok rest => rfl

theorem between_fits {a b s : Int} {n k : Nat} (hs : s = 1 ∨ s = -1) (ha : -2 ^ 31 ≤ a ∧ a < 2 ^ 31)
    (hb : b = a + s * n) (hfit : -2 ^ 31 ≤ b ∧ b < 2 ^ 31) (hk : k ≤ n) :
    -2 ^ 31 ≤ a + s * k ∧ a + s * k < 2 ^ 31 := by
  rcases hs with rfl | rfl <;> omega

theorem line_at_end {x1 y1 : Int} (hx1 : x1 = x0 + sx * D) (hy1 : y1 = y0 + sy * E) (hi : i + 0 = max D E) :
    (lineAt x0 y0 sx sy D E i).x = x1 ∧ (lineAt x0 y0 sx sy D E i).y = y1 := by
  obtain ⟨hX, hY⟩ := line_end D E
  rw [Nat.add_zero] at hi
  unfold lineAt
  dsimp only
  rw [hi, hX, hY]
  exact ⟨hx1.symm, hy1.symm⟩

theorem line_before_end {x1 y1 : Int} (hsx : sx = 1 ∨ sx = -1) (hsy : sy = 1 ∨ sy = -1)
    (hx1 : x1 = x0 + sx * D) (hy1 : y1 = y0 + sy * E) (h : i < max D E) :
    ¬ ((lineAt x0 y0 sx sy D E i).x = x1 ∧ (lineAt x0 y0 sx sy D E i).y = y1) := by
  unfold lineAt
  dsimp only
  rintro ⟨hx, hy⟩
  apply line_not_end h
  rcases hsx with rfl | rfl <;> rcases hsy with rfl | rfl <;> omega

theorem lineLoop_from {x1 y1 : Int} (hsx : sx = 1 ∨ sx = -1) (hsy : sy = 1 ∨ sy = -1)
    (hx1 : x1 = x0 + sx * D) (hy1 : y1 = y0 + sy * E)
    (hfx : (-2 ^ 31 ≤ x0 ∧ x0 < 2 ^ 31) ∧ -2 ^ 31 ≤ x1 ∧ x1 < 2 ^ 31)
    (hfy : (-2 ^ 31 ≤ y0 ∧ y0 < 2 ^ 31) ∧ -2 ^ 31 ≤ y1 ∧ y1 < 2 ^ 31)
    (hsmall : 3 * max D E < 2 ^ 31) : ∀ k i fuel, i + k = max D E → k < fuel →
      lineLoop x1 y1 D (-E) sx sy fuel (lineAt x0 y0 sx sy D E i).x (lineAt x0 y0 sx sy D E i).y (errorAt D E i) =
        .ok ((List.range' i (k + 1)).map (lineAt x0 y0 sx sy D E)) := by
  intro k
  induction k with
  | zero =>
    intro i fuel hi hfuel
    obtain ⟨fuel, rfl⟩ : ∃ n, fuel = n + 1 := ⟨fuel - 1, by omega⟩
    rw [lineLoop, if_pos (line_at_end hx1 hy1 hi)]
    rfl
  | succ k ih =>
    intro i fuel hi hfuel
    obtain ⟨fuel, rfl⟩ : ∃ n, fuel = n + 1 := ⟨fuel - 1, by omega⟩
    have hlt : i < max D E := by omega
    have hend := line_before_end hsx hsy hx1 hy1 hlt
    obtain ⟨hadvX, hadvY, hadvE⟩ := @line_advance x0 y0 sx sy D E i hlt
    obtain ⟨htwice, hdown, hup⟩ := error_range hlt
    have hle := line_le (show i + 1 ≤ max D E by omega)
    have hfitX := between_fits hsx hfx.1 hx1 hfx.2 hle.1
    have hfitY := between_fits hsy hfy.1 hy1 hfy.2 hle.2
    rw [lineLoop_succ hend, hadvX, hadvY, hadvE, ih (i + 1) fuel (by omega) (by omega)]
    · rfl
    · omega
    · omega
    · intro htest
      rw [if_pos htest] at hadvX
      rw [hadvX]
      exact hfitX
    · intro htest
      have hup := hup htest
      split_ifs <;> omega
    · intro htest
      rw [if_pos htest] at hadvY
      rw [hadvY]
      exact hfitY

theorem lineFrom_eq (format : PixelFormat) (color : Color) {x1 y1 : Int} (hsx : sx = 1 ∨ sx = -1) (hsy : sy = 1 ∨ sy = -1)
    (hx1 : x1 = x0 + sx * D) (hy1 : y1 = y0 + sy * E) : ∀ k i fuel, i + k = max D E → k < fuel →
      lineFrom format x1 y1 D (-E) sx sy color fuel (lineAt x0 y0 sx sy D E i).x
          (lineAt x0 y0 sx sy D E i).y (errorAt D E i) =
        seqAll ((List.range' i (k + 1)).map fun j =>
          putPixel format (lineAt x0 y0 sx sy D E j).x (lineAt x0 y0 sx sy D E j).y color) := by
  intro k
  induction k with
  | zero =>
    intro i fuel hi hfuel
    obtain ⟨fuel, rfl⟩ : ∃ n, fuel = n + 1 := ⟨fuel - 1, by omega⟩
    rw [lineFrom, if_pos (line_at_end hx1 hy1 hi)]
    rfl
  | succ k ih =>
    intro i fuel hi hfuel
    obtain ⟨fuel, rfl⟩ : ∃ n, fuel = n + 1 := ⟨fuel - 1, by omega⟩
    have hlt : i < max D E := by omega
    obtain ⟨hadvX, hadvY, hadvE⟩ := @line_advance x0 y0 sx sy D E i hlt
    rw [lineFrom, if_neg (line_before_end hsx hsy hx1 hy1 hlt)]
    dsimp only
    rw [hadvX, hadvY, hadvE, ih (i + 1) fuel (by omega) (by omega)]
    rfl

end Loop

def direction (a b : Int) : Int := if a < b then 1 else -1

def linePoints (x0 y0 x1 y1 : Int) : List Point :=
  (List.range (max (x1 - x0).natAbs (y1 - y0).natAbs + 1)).map
    (lineAt x0 y0 (direction x0 x1) (direction y0 y1) (x1 - x0).natAbs (y1 - y0).natAbs)

section Ends
variable {x0 y0 x1 y1 : Int}

theorem direction_cases (a b : Int) : direction a b = 1 ∨ direction a b = -1 := by
  unfold direction
  split_ifs
  · exact Or.inl rfl
  · exact Or.inr rfl

theorem direction_end (a b : Int) : b = a + direction a b * (b - a).natAbs := by
  unfold direction
  split_ifs <;> omega

theorem extentX (a b : Int) : (if b ≥ a then b - a else a - b) = ((b - a).natAbs : Int) := by
  split_ifs <;> omega

theorem extentY (a b : Int) : (if b ≥ a then a - b else b - a) = -((b - a).natAbs : Int) := by
  split_ifs <;> omega

theorem errorAt_zero (D E : Nat) : errorAt D E 0 = D + -E := by
  unfold errorAt
  rw [lineX_zero, lineY_zero]
  push_cast
  ring

theorem lineAt_zero (sx sy : Int) (D E : Nat) : lineAt x0 y0 sx sy D E 0 = ⟨x0, y0⟩ := by
  unfold lineAt
  rw [lineX_zero, lineY_zero]
  simp

theorem linePlots_eq (hfx : (-2 ^ 31 ≤ x0 ∧ x0 < 2 ^ 31) ∧ -2 ^ 31 ≤ x1 ∧ x1 < 2 ^ 31)
    (hfy : (-2 ^ 31 ≤ y0 ∧ y0 < 2 ^ 31) ∧ -2 ^ 31 ≤ y1 ∧ y1 < 2 ^ 31)
    (hsmall : 3 * max (x1 - x0).natAbs (y1 - y0).natAbs < 2 ^ 31) {fuel : Nat}
    (hfuel : max (x1 - x0).natAbs (y1 - y0).natAbs < fuel) :
    linePlots fuel x0 y0 x1 y1 = .ok (linePoints x0 y0 x1 y1) := by
  have hloop := lineLoop_from (direction_cases x0 x1) (direction_cases y0 y1) (direction_end x0 x1)
    (direction_end y0 y1) hfx hfy hsmall _ 0 fuel (Nat.zero_add _) hfuel
  rw [lineAt_zero, errorAt_zero, ← List.range_eq_range'] at hloop
  unfold linePlots
  rw [extentX, extentY, checked32_eq (by omega), checked32_eq (by omega)]
  change (checked32 ((x1 - x0).natAbs + -((y1 - y0).natAbs : Int)) >>= _) = _
  rw [checked32_eq (by omega)]
  exact hloop

theorem drawLine_eq (format : PixelFormat) (color : Color) (x0 y0 x1 y1 : Int) :
    drawLine format x0 y0 x1 y1 color =
      seqAll ((linePoints x0 y0 x1 y1).map fun p => putPixel format p.x p.y color) := by
  have hpainting := lineFrom_eq format color (direction_cases x0 x1) (direction_cases y0 y1) (direction_end x0 x1)
    (direction_end y0 y1) (max (x1 - x0).natAbs (y1 - y0).natAbs) 0
    (((x1 - x0).natAbs - -((y1 - y0).natAbs : Int)).toNat + 1) (Nat.zero_add _) (by omega)
  rw [lineAt_zero, errorAt_zero, ← List.range_eq_range'] at hpainting
  unfold drawLine linePoints
  dsimp only
  rw [extentX, extentY, List.map_map]
  exact hpainting

/-- The points lead from end to end inside the box of the ends, one step along the longer axis at a time. -/
structure LeadsTo (x0 y0 x1 y1 : Int) (points : List Point) : Prop where
  length : points.length = max (x1 - x0).natAbs (y1 - y0).natAbs + 1
  first : points.head? = some ⟨x0, y0⟩
  last : points.getLast? = some ⟨x1, y1⟩
  box : ∀ p ∈ points, (min x0 x1 ≤ p.x ∧ p.x ≤ max x0 x1) ∧ min y0 y1 ≤ p.y ∧ p.y ≤ max y0 y1
  steps : points.IsChain fun p q =>
    ((q.x - p.x).natAbs ≤ 1 ∧ (q.y - p.y).natAbs ≤ 1) ∧
      ((y1 - y0).natAbs ≤ (x1 - x0).natAbs → (q.x - p.x).natAbs = 1) ∧
      ((x1 - x0).natAbs ≤ (y1 - y0).natAbs → (q.y - p.y).natAbs = 1)

theorem between {a b : Int} {k : Nat} (hk : k ≤ (b - a).natAbs) :
    min a b ≤ a + direction a b * k ∧ a + direction a b * k ≤ max a b := by
  unfold direction
  split_ifs <;> omega

theorem step_natAbs {a s : Int} {k n : Nat} (hs : s = 1 ∨ s = -1) (hk : k ≤ n) :
    (a + s * n - (a + s * k)).natAbs = n - k := by
  rcases hs with rfl | rfl <;> omega

theorem linePoints_leadsTo (x0 y0 x1 y1 : Int) : LeadsTo x0 y0 x1 y1 (linePoints x0 y0 x1 y1) := by
  refine ⟨?_, ?_, ?_, ?_, ?_⟩
  · unfold linePoints
    rw [List.length_map, List.length_range]
  · unfold linePoints
    rw [List.range_succ_eq_map, List.map_cons, List.head?_cons, lineAt_zero]
  · obtain ⟨hx, hy⟩ := line_at_end (direction_end x0 x1) (direction_end y0 y1) rfl
    unfold linePoints
    rw [List.range_succ, List.map_append, List.map_singleton, List.getLast?_concat]
    exact congrArg some (congrArg₂ Point.mk hx hy)
  · intro p hp
    obtain ⟨i, hi, rfl⟩ := List.mem_map.mp hp
    rw [List.mem_range] at hi
    obtain ⟨hX, hY⟩ := line_le (show i ≤ max _ _ from Nat.le_of_lt_succ hi)
    exact ⟨between hX, between hY⟩
  · unfold linePoints
    rw [List.isChain_map, List.isChain_range_succ]
    intro i hi
    obtain ⟨hX, hY, hlongX, hlongY⟩ := line_step hi
    have hmonoX : lineX (x1 - x0).natAbs (y1 - y0).natAbs i ≤ lineX (x1 - x0).natAbs (y1 - y0).natAbs (i + 1) :=
      lineX_mono (Nat.le_succ i)
    have hmonoY : lineY (x1 - x0).natAbs (y1 - y0).natAbs i ≤ lineY (x1 - x0).natAbs (y1 - y0).natAbs (i + 1) :=
      lineY_mono (Nat.le_succ i)
    have hstepX := @step_natAbs x0 _ _ _ (direction_cases x0 x1) hmonoX
    have hstepY := @step_natAbs y0 _ _ _ (direction_cases y0 y1) hmonoY
    unfold lineAt
    dsimp only [Nat.succ_eq_add_one]
    rw [hstepX, hstepY]
    refine ⟨⟨by omega, by omega⟩, fun h => ?_, fun h => ?_⟩
    · have := hlongX h
      omega
    · have := hlongY h
      omega

theorem drawLine_apply (format : PixelFormat) (color : Color) (x0 y0 x1 y1 : Int) (p : Pixel) :
    drawLine format x0 y0 x1 y1 color p = if p.1 ∈ linePoints x0 y0 x1 y1 then some (packColor format color) else none := by
  rw [drawLine_eq]
  split_ifs with hp
  · apply seqAll_of_const
    · intro a ha
      obtain ⟨q, -, rfl⟩ := List.mem_map.mp ha
      unfold putPixel
      split_ifs
      · exact Or.inr rfl
      · exact Or.inl rfl
    · exact ⟨_, List.mem_map_of_mem hp, if_pos rfl⟩
  · apply seqAll_eq_none.mpr
    intro a ha
    obtain ⟨q, hq, rfl⟩ := List.mem_map.mp ha
    refine if_neg ?_
    rintro heq
    exact hp (heq ▸ hq)

theorem mem_linePoints_level {x y : Int} (h : x0 ≤ x) (h' : x ≤ x1) : (⟨x, y⟩ : Point) ∈ linePoints x0 y x1 y := by
  have hi : (x - x0).natAbs ≤ max (x1 - x0).natAbs (y - y).natAbs := by omega
  have hlevel := (line_le hi).2
  refine List.mem_map.mpr ⟨(x - x0).natAbs, List.mem_range.mpr (by omega), ?_⟩
  unfold lineAt
  have hx : lineX (x1 - x0).natAbs (y - y).natAbs (x - x0).natAbs = (x - x0).natAbs := if_pos (by omega)
  have hy : lineY (x1 - x0).natAbs (y - y).natAbs (x - x0).natAbs = 0 := by omega
  rw [hx, hy]
  unfold direction
  split_ifs <;> simp only [Point.mk.injEq] <;> omega

theorem mem_linePoints_upright {x y : Int} (h : y0 ≤ y) (h' : y ≤ y1) : (⟨x, y⟩ : Point) ∈ linePoints x y0 x y1 := by
  have hi : (y - y0).natAbs ≤ max (x - x).natAbs (y1 - y0).natAbs := by omega
  have hupright := (line_le hi).1
  refine List.mem_map.mpr ⟨(y - y0).natAbs, List.mem_range.mpr (by omega), ?_⟩
  unfold lineAt
  have hx : lineX (x - x).natAbs (y1 - y0).natAbs (y - y0).natAbs = 0 := by omega
  have hy : lineY (x - x).natAbs (y1 - y0).natAbs (y - y0).natAbs = (y - y0).natAbs := by
    by_cases hpoint : (y1 - y0).natAbs = 0
    · rw [show (y - y0).natAbs = 0 by omega, lineY_zero]
    · exact if_neg (by omega)
  rw [hx, hy]
  unfold direction
  split_ifs <;> simp only [Point.mk.injEq] <;> omega

theorem drawLine_within {format : PixelFormat} {color : Color} {s : Set Pixel}
    (h : ∀ p : Pixel, min x0 x1 ≤ p.1.x → p.1.x ≤ max x0 x1 → min y0 y1 ≤ p.1.y → p.1.y ≤ max y0 y1 → p ∈ s) :
    (drawLine format x0 y0 x1 y1 color).Within s := by
  intro p hp
  rw [drawLine_apply] at hp
  split_ifs at hp with hpoint
  · obtain ⟨hx, hy⟩ := (linePoints_leadsTo x0 y0 x1 y1).box _ hpoint
    exact h p hx.1 hx.2 hy.1 hy.2
  · exact absurd rfl hp

end Ends

section Overflow
variable {H : Nat} {x1 : Int}

theorem lineLoop_level (hhigh : 2 ^ 31 < 6 * H - 1) (hfits : H ≤ 2 ^ 29) (hx1 : x1 < 2 ^ 31) (fuel : Nat) :
    ∀ (k : Nat) (x : Int), -2 ^ 31 ≤ x → x + k + 1 < x1 → H + k < 2 ^ 30 →
      lineLoop x1 1 (H * 2 : Nat) (-1) 1 1 (fuel + k + 2) x 0 (H + k : Nat) = .error .overflow := by
  -- A line that falls by one on twice `H`: as long as it is level, every turn takes one from the error.
  -- Behind the turn in which it falls the doubled error is `6 * H - 2`.
  intro k
  induction k with
  | zero =>
    intro x hx hend hlevel
    have hpast : checked32 (((H + 0 : Nat) + -1 + (H * 2 : Nat) : Int) * 2) = .error .overflow := by
      unfold checked32
      rw [if_neg (by omega)]
    rw [lineLoop_succ (by omega) (by omega) (by omega) (by omega) (by split_ifs <;> omega) (by omega),
      if_pos (by omega), if_pos (by omega), if_pos (by omega), if_pos (by omega), lineLoop, if_neg (by omega), hpast]
    rfl
  | succ k ih =>
    intro x hx hend hlevel
    have hnext := ih (x + 1) (by omega) (by omega) (by omega)
    have herror : ((H + (k + 1) : Nat) : Int) + -1 = (H + k : Nat) := by omega
    rw [show fuel + (k + 1) + 2 = fuel + k + 2 + 1 by omega,
      lineLoop_succ (by omega) (by omega) (by omega) (by omega) (by omega) (by omega),
      if_pos (by omega), if_neg (by omega), if_neg (by omega), if_pos (by omega), herror, hnext]
    rfl

theorem linePlots_overflows (hhigh : 2 ^ 31 < 6 * H - 1) (hfits : H ≤ 2 ^ 29) {fuel : Nat} (hfuel : H < fuel) :
    linePlots fuel (-H) 0 H 1 = .error .overflow := by
  obtain ⟨rest, rfl⟩ : ∃ rest, fuel = rest + (H - 1) + 2 := ⟨fuel - (H - 1) - 2, by omega⟩
  have hloop := lineLoop_level hhigh hfits (show (H : Int) < 2 ^ 31 by omega) rest (H - 1) (-H) (by omega)
    (by omega) (by omega)
  have herror : ((H * 2 : Nat) : Int) + -1 = (H + (H - 1) : Nat) := by omega
  have hdx : (if (H : Int) ≥ -H then (H : Int) - -H else -H - H) = (H * 2 : Nat) := by
    rw [if_pos (by omega)]
    omega
  have hdy : (if (1 : Int) ≥ 0 then 0 - 1 else 1 - 0 : Int) = -1 := by decide
  unfold linePlots
  rw [hdx, hdy, if_pos (show -(H : Int) < H by omega), if_pos (show (0 : Int) < 1 by decide),
    checked32_eq (by omega), checked32_eq (by omega)]
  change (checked32 (((H * 2 : Nat) : Int) + -1) >>= _) = _
  rw [herror, checked32_eq (by omega)]
  exact hloop

end Overflow

section Clip
variable {rect : Rect} {width height : Int}

theorem contains_iff {p : Point} : contains rect p = true ↔
    rect.x ≤ p.x ∧ rect.y ≤ p.y ∧ p.x < rect.x + rect.width ∧ p.y < rect.y + rect.height := by
  simp only [contains, Bool.and_eq_true, decide_eq_true_eq, and_assoc, ge_iff_le]

/-- The common part of a rectangle and the screen, in values that fit. -/
structure Clips (rect : Rect) (width height : Int) (result : Rect) : Prop where
  exact : ∀ p, contains result p = true ↔
    contains rect p = true ∧ (0 ≤ p.x ∧ p.x < width) ∧ 0 ≤ p.y ∧ p.y < height
  origin : (0 ≤ result.x ∧ result.x < 2 ^ 31) ∧ 0 ≤ result.y ∧ result.y < 2 ^ 31
  size : (0 ≤ result.width ∧ result.width < 2 ^ 31) ∧ 0 ≤ result.height ∧ result.height < 2 ^ 31

theorem clips_empty (h : ∀ p, contains rect p = true → ¬ ((0 ≤ p.x ∧ p.x < width) ∧ 0 ≤ p.y ∧ p.y < height)) :
    Clips rect width height ⟨0, 0, 0, 0⟩ := by
  refine ⟨fun p => ⟨fun hp => ?_, fun hp => absurd hp.2 (h p hp.1)⟩, by decide, by decide⟩
  rw [contains_iff] at hp
  dsimp only at hp
  omega

theorem clipRect_clips (hwidth : width < 2 ^ 31) (hheight : height < 2 ^ 31) :
    Clips rect width height (clipRect rect width height) := by
  have hmax : int32Max = 2 ^ 31 - 1 := rfl
  have hright : min (if rect.x + rect.width > int32Max then int32Max else rect.x + rect.width) width =
      min (rect.x + rect.width) width := by
    split_ifs <;> omega
  have hbottom : min (if rect.y + rect.height > int32Max then int32Max else rect.y + rect.height) height =
      min (rect.y + rect.height) height := by
    split_ifs <;> omega
  unfold clipRect
  dsimp only
  rw [hright, hbottom]
  split_ifs with hnone hapart
  · apply clips_empty
    intro p hp
    rw [contains_iff] at hp
    omega
  · apply clips_empty
    intro p hp
    rw [contains_iff] at hp
    omega
  · refine ⟨fun p => ?_, by dsimp only; omega, by dsimp only; omega⟩
    rw [contains_iff, contains_iff]
    dsimp only
    omega

end Clip

end Linux95.Gui
