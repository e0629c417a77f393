import Mathlib.Algebra.Order.Group.Nat
import Mathlib.Tactic.Common
import Mathlib.Tactic.Ring.RingNF
import Mathlib.Tactic.SplitIfs

/-! The grid points next to a line from the origin: one step along the longer axis at a time, and along the
shorter one the nearest integer. -/

namespace Linux95.Base

/-- `m * i / M`, rounded to the nearest integer and upwards from the middle. -/
def nearest (M m i : Nat) : Nat := (2 * (m * i) + M) / (2 * M)

section Nearest
variable {M m i : Nat}

theorem nearest_bounds (hM : 0 < M) :
    2 * (M * nearest M m i) ≤ 2 * (m * i) + M ∧ 2 * (m * i) + M < 2 * (M * nearest M m i) + 2 * M := by
  have hdiv := Nat.div_add_mod (2 * (m * i) + M) (2 * M)
  have hmod := Nat.mod_lt (2 * (m * i) + M) (show 0 < 2 * M by omega)
  rw [Nat.mul_assoc] at hdiv
  unfold nearest
  omega

theorem nearest_unique (hM : 0 < M) {j : Nat} (hlo : 2 * (M * j) ≤ 2 * (m * i) + M)
    (hhi : 2 * (m * i) + M < 2 * (M * j) + 2 * M) : nearest M m i = j := by
  unfold nearest
  rw [Nat.div_eq_iff (by omega), Nat.mul_comm j, Nat.mul_assoc]
  omega

theorem nearest_zero (M m : Nat) : nearest M m 0 = 0 := by
  unfold nearest
  rw [Nat.mul_zero, Nat.zero_add, Nat.div_eq_zero_iff]
  omega

theorem nearest_self (hM : 0 < M) : nearest M m M = m := by
  rw [nearest_unique hM] <;> rw [Nat.mul_comm M m] <;> omega

theorem nearest_mono {j : Nat} (h : i ≤ j) : nearest M m i ≤ nearest M m j := by
  have hmul := Nat.mul_le_mul_left m h
  unfold nearest
  exact Nat.div_le_div_right (by omega)

theorem nearest_succ (hM : 0 < M) (hm : m ≤ M) :
    nearest M m (i + 1) =
      nearest M m i + if M * (2 * nearest M m i + 1) ≤ 2 * (m * (i + 1)) then 1 else 0 := by
  obtain ⟨hlo, hhi⟩ := @nearest_bounds M m i hM
  have hstep : m * (i + 1) = m * i + m := Nat.mul_succ m i
  have hodd : M * (2 * nearest M m i + 1) = 2 * (M * nearest M m i) + M := by ring
  have hnext : M * (nearest M m i + 1) = M * nearest M m i + M := Nat.mul_succ M _
  rw [hodd]
  split_ifs with hmiddle
  · apply nearest_unique hM <;> omega
  · exact nearest_unique (j := nearest M m i) hM (by omega) (by omega)

end Nearest

def lineX (D E i : Nat) : Nat := if E ≤ D then i else nearest E D i

def lineY (D E i : Nat) : Nat := if E ≤ D then nearest D E i else i

section Line
variable {D E i : Nat}

theorem lineX_zero (D E : Nat) : lineX D E 0 = 0 := by
  unfold lineX
  split_ifs
  · rfl
  · exact nearest_zero E D

theorem lineY_zero (D E : Nat) : lineY D E 0 = 0 := by
  unfold lineY
  split_ifs
  · exact nearest_zero D E
  · rfl

theorem line_end (D E : Nat) : lineX D E (max D E) = D ∧ lineY D E (max D E) = E := by
  unfold lineX lineY
  by_cases h : E ≤ D
  · rw [if_pos h, if_pos h, Nat.max_eq_left h]
    refine ⟨rfl, ?_⟩
    rcases Nat.eq_zero_or_pos D with hzero | hD
    · have hE : E = 0 := by omega
      rw [hzero, hE]
      rfl
    · exact nearest_self hD
  · rw [if_neg h, if_neg h, Nat.max_eq_right (by omega)]
    exact ⟨nearest_self (by omega), rfl⟩

theorem lineX_mono {j : Nat} (h : i ≤ j) : lineX D E i ≤ lineX D E j := by
  unfold lineX
  split_ifs
  · exact h
  · exact nearest_mono h

theorem lineY_mono {j : Nat} (h : i ≤ j) : lineY D E i ≤ lineY D E j := by
  unfold lineY
  split_ifs
  · exact nearest_mono h
  · exact h

theorem line_le (h : i ≤ max D E) : lineX D E i ≤ D ∧ lineY D E i ≤ E := by
  obtain ⟨hx, hy⟩ := line_end D E
  have hx' := lineX_mono (D := D) (E := E) h
  have hy' := lineY_mono (D := D) (E := E) h
  omega

theorem line_not_end (h : i < max D E) : ¬ (lineX D E i = D ∧ lineY D E i = E) := by
  unfold lineX lineY
  split_ifs with hle
  · rintro ⟨hx, -⟩
    omega
  · rintro ⟨-, hy⟩
    omega

theorem line_bounds (h : i < max D E) :
    if E ≤ D then
      2 * (D * lineY D E i) ≤ 2 * (E * lineX D E i) + D ∧
        2 * (E * lineX D E i) < 2 * (D * lineY D E i) + D
    else
      2 * (E * lineX D E i) ≤ 2 * (D * lineY D E i) + E ∧
        2 * (D * lineY D E i) < 2 * (E * lineX D E i) + E := by
  unfold lineX lineY
  by_cases hle : E ≤ D
  · rw [if_pos hle, if_pos hle, if_pos hle]
    obtain ⟨hlo, hhi⟩ := @nearest_bounds D E i (by omega)
    omega
  · rw [if_neg hle, if_neg hle, if_neg hle]
    obtain ⟨hlo, hhi⟩ := @nearest_bounds E D i (by omega)
    omega

theorem lineX_succ (h : i < max D E) :
    lineX D E (i + 1) =
      lineX D E i + if E * (2 * lineX D E i + 1) ≤ 2 * (D * (lineY D E i + 1)) then 1 else 0 := by
  have hbounds := line_bounds h
  by_cases hle : E ≤ D
  · rw [if_pos hle] at hbounds
    rw [if_pos]
    · unfold lineX
      rw [if_pos hle, if_pos hle]
    · have hodd : E * (2 * lineX D E i + 1) = 2 * (E * lineX D E i) + E := by ring
      rw [hodd, Nat.mul_succ]
      omega
  · unfold lineX lineY
    rw [if_neg hle, if_neg hle, if_neg hle]
    exact nearest_succ (by omega) (by omega)

theorem lineY_succ (h : i < max D E) :
    lineY D E (i + 1) =
      lineY D E i + if D * (2 * lineY D E i + 1) ≤ 2 * (E * (lineX D E i + 1)) then 1 else 0 := by
  have hbounds := line_bounds h
  by_cases hle : E ≤ D
  · unfold lineX lineY
    rw [if_pos hle, if_pos hle, if_pos hle]
    exact nearest_succ (by omega) hle
  · rw [if_neg hle] at hbounds
    rw [if_pos]
    · unfold lineY
      rw [if_neg hle, if_neg hle]
    · have hodd : D * (2 * lineY D E i + 1) = 2 * (D * lineY D E i) + D := by ring
      rw [hodd, Nat.mul_succ]
      omega

theorem line_step (h : i < max D E) :
    lineX D E (i + 1) ≤ lineX D E i + 1 ∧ lineY D E (i + 1) ≤ lineY D E i + 1 ∧
      (E ≤ D → lineX D E (i + 1) = lineX D E i + 1) ∧ (D ≤ E → lineY D E (i + 1) = lineY D E i + 1) := by
  have hx := lineX_succ h
  have hy := lineY_succ h
  refine ⟨?_, ?_, fun hle => ?_, fun hle => ?_⟩
  · rw [hx]
    split_ifs <;> omega
  · rw [hy]
    split_ifs <;> omega
  · unfold lineX
    rw [if_pos hle, if_pos hle]
  · rcases hle.lt_or_eq with hlt | rfl
    · unfold lineY
      rw [if_neg (by omega), if_neg (by omega)]
    · -- Both axes have the same extent, so every step reaches the middle.
      have hbounds := line_bounds h
      rw [if_pos (le_refl _)] at hbounds
      have hodd : D * (2 * lineY D D i + 1) = 2 * (D * lineY D D i) + D := by ring
      rw [hy, if_pos]
      rw [hodd, Nat.mul_succ]
      omega

end Line

end Linux95.Base
