import Mathlib.Algebra.Group.Nat.Defs
import Mathlib.Tactic.Common

/-! Round robin among `n` slots: the choice is the first ready slot from `start` on, with wraparound, and the next
one starts behind it. -/

namespace Linux95.Base

section Choice
variable {n start b c : Nat} {ready : Nat → Bool}

def ahead (n start b : Nat) : Nat := if start ≤ b then b - start else b + n - start

def firstReady (n : Nat) (ready : Nat → Bool) (start : Nat) : Option Nat :=
  ((List.range n).find? fun offset => ready ((start + offset) % n)).map fun offset => (start + offset) % n

theorem ahead_lt (hstart : start < n) (hb : b < n) : ahead n start b < n := by
  unfold ahead
  split <;> omega

theorem add_mod_of_lt (hstart : start < n) {offset : Nat} (hoffset : offset < n) :
    (start + offset) % n = if start + offset < n then start + offset else start + offset - n := by
  split
  · rename_i hlt
    exact Nat.mod_eq_of_lt hlt
  · rw [Nat.mod_eq_sub_mod (by omega), Nat.mod_eq_of_lt (by omega)]

theorem add_ahead (hstart : start < n) (hb : b < n) : (start + ahead n start b) % n = b := by
  rw [add_mod_of_lt hstart (ahead_lt hstart hb)]
  unfold ahead
  split <;> split <;> omega

theorem ahead_add (hstart : start < n) {offset : Nat} (hoffset : offset < n) :
    ahead n start ((start + offset) % n) = offset := by
  rw [add_mod_of_lt hstart hoffset]
  unfold ahead
  split <;> split <;> omega

theorem firstReady_eq_none_iff (hstart : start < n) :
    firstReady n ready start = none ↔ ∀ b < n, ready b = false := by
  unfold firstReady
  rw [Option.map_eq_none_iff, List.find?_eq_none]
  constructor
  · intro h b hb
    have hoffset := h (ahead n start b) (List.mem_range.mpr (ahead_lt hstart hb))
    rw [add_ahead hstart hb] at hoffset
    exact eq_false_of_ne_true hoffset
  · intro h offset _
    rw [h _ (Nat.mod_lt _ (by omega))]
    exact Bool.false_ne_true

theorem firstReady_some (hstart : start < n) (h : firstReady n ready start = some c) :
    c < n ∧ ready c = true ∧ ∀ b < n, ready b = true → ahead n start c ≤ ahead n start b := by
  obtain ⟨offset, hfind, rfl⟩ := Option.map_eq_some_iff.mp h
  obtain ⟨hready, hmem, hfirst⟩ := List.find?_range_eq_some.mp hfind
  have hoffset : offset < n := List.mem_range.mp hmem
  refine ⟨Nat.mod_lt _ (by omega), hready, fun b hb hb' => ?_⟩
  rw [ahead_add hstart hoffset]
  by_contra hlt
  have hbefore := hfirst _ (Nat.lt_of_not_le hlt)
  rw [add_ahead hstart hb, hb'] at hbefore
  cases hbefore

theorem ahead_next (hstart : start < n) (hb : b < n) (hc : c < n) (hlt : ahead n start c < ahead n start b) :
    ahead n start b = ahead n start c + 1 + ahead n ((c + 1) % n) b := by
  rw [add_mod_of_lt hc (show 1 < n by unfold ahead at hlt; split at hlt <;> split at hlt <;> omega)]
  unfold ahead at *
  split at hlt <;> split at hlt <;> split <;> split <;> split <;> omega

theorem ahead_inj (hstart : start < n) (hb : b < n) (hc : c < n) (h : ahead n start b = ahead n start c) : b = c := by
  rw [← add_ahead hstart hb, h, add_ahead hstart hc]

end Choice

/-- A run of choices from `start 0` on; what is ready may change in between. -/
structure Rounds (n : Nat) (ready : Nat → Nat → Bool) (start : Nat → Nat) (choice : Nat → Option Nat) : Prop where
  first : start 0 < n
  chosen : ∀ k, choice k = firstReady n (ready k) (start k)
  next : ∀ k, start (k + 1) = match choice k with
    | none => start k
    | some c => (c + 1) % n

namespace Rounds

variable {n : Nat} {ready : Nat → Nat → Bool} {start : Nat → Nat} {choice : Nat → Option Nat} {b : Nat}

theorem start_lt (h : Rounds n ready start choice) (k : Nat) : start k < n := by
  induction k with
  | zero => exact h.first
  | succ k ih =>
    rw [h.next]
    split
    · exact ih
    · exact Nat.mod_lt _ (by omega)

theorem nearer (h : Rounds n ready start choice) (hb : b < n) {k : Nat} (hready : ready k b = true)
    (hother : choice k ≠ some b) :
    ∃ c < n, choice k = some c ∧ ahead n (start k) b = ahead n (start k) c + 1 + ahead n (start (k + 1)) b := by
  cases hchoice : choice k with
  | none =>
    rw [h.chosen, firstReady_eq_none_iff (h.start_lt k)] at hchoice
    rw [hchoice b hb] at hready
    cases hready
  | some c =>
    obtain ⟨hc, -, hnearest⟩ := firstReady_some (h.start_lt k) ((h.chosen k).symm.trans hchoice)
    have hne : ahead n (start k) c ≠ ahead n (start k) b := by
      intro heq
      rw [hchoice, ahead_inj (h.start_lt k) hc hb heq] at hother
      exact hother rfl
    have hnext := ahead_next (h.start_lt k) hb hc (Nat.lt_of_le_of_ne (hnearest b hb hready) hne)
    refine ⟨c, hc, rfl, ?_⟩
    rw [hnext, h.next, hchoice]

theorem approaching (h : Rounds n ready start choice) (hb : b < n) {i m : Nat}
    (hready : ∀ k, i ≤ k → k < i + m → ready k b = true) (hother : ∀ k, i ≤ k → k < i + m → choice k ≠ some b) :
    ahead n (start (i + m)) b + m ≤ ahead n (start i) b := by
  induction m with
  | zero => exact Nat.le_refl _
  | succ m ih =>
    have hle := ih (fun k hk hlt => hready k hk (by omega)) fun k hk hlt => hother k hk (by omega)
    obtain ⟨c, -, -, hstep⟩ := h.nearer hb (hready (i + m) (by omega) (by omega)) (hother (i + m) (by omega) (by omega))
    change ahead n (start (i + m + 1)) b + (m + 1) ≤ _
    omega

/-- A slot that stays ready is chosen within `n` choices. -/
theorem chosen_within (h : Rounds n ready start choice) (hb : b < n) {i : Nat}
    (hready : ∀ k, i ≤ k → k < i + n → ready k b = true) : ∃ k, i ≤ k ∧ k < i + n ∧ choice k = some b := by
  by_contra hnever
  have hother : ∀ k, i ≤ k → k < i + n → choice k ≠ some b := fun k hk hlt hchoice => hnever ⟨k, hk, hlt, hchoice⟩
  have hnearer := h.approaching hb hready hother
  have hlt := ahead_lt (h.start_lt i) hb
  omega

theorem chosen_between (h : Rounds n ready start choice) (hb : b < n) {a i j : Nat} (hab : a ≠ b) (hij : i < j)
    (hi : choice i = some a) (hj : choice j = some a) (hready : ∀ k, i < k → k ≤ j → ready k b = true) :
    ∃ k, i < k ∧ k < j ∧ choice k = some b := by
  by_contra hnever
  have hother : ∀ k, i + 1 ≤ k → k < i + 1 + (j - (i + 1)) → choice k ≠ some b :=
    fun k hk hlt hchoice => hnever ⟨k, hk, by omega, hchoice⟩
  have hnearer := h.approaching hb (fun k hk hlt => hready k hk (by omega)) hother
  rw [Nat.add_sub_cancel' hij] at hnearer
  -- `b` is as near behind the second choice of `a` as it was behind the first one, and yet nearer
  have ha : a < n := (firstReady_some (h.start_lt i) ((h.chosen i).symm.trans hi)).1
  obtain ⟨c, hc, hchoice, hstep⟩ := h.nearer hb (hready j hij (Nat.le_refl j)) (by rw [hj]; exact fun heq => hab (Option.some.inj heq))
  obtain rfl : a = c := Option.some.inj (hj.symm.trans hchoice)
  have hnext : start (i + 1) = (a + 1) % n := by rw [h.next, hi]
  have hnext' : start (j + 1) = (a + 1) % n := by rw [h.next, hj]
  rw [hnext] at hnearer
  rw [hnext'] at hstep
  omega

end Rounds

end Linux95.Base
