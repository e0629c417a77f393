import Mathlib.Logic.Function.Basic
import Mathlib.Data.Nat.ModEq

/-! Rings: slots that hold the newest part of a history, each entry at its number modulo the
capacity. -/

namespace Linux95.Base

variable {α : Type} {slots : Nat → α} {cap lo : Nat} {hist : List α}

/-- The entries of the history from number `lo` on are in their slots. -/
def Retains (slots : Nat → α) (cap : Nat) (hist : List α) (lo : Nat) : Prop :=
  ∀ i, lo ≤ i → ∀ h : i < hist.length, slots (i % cap) = hist[i]

theorem retains_nil (slots : Nat → α) (cap lo : Nat) : Retains slots cap [] lo :=
  fun _ _ h => absurd h (Nat.not_lt_zero _)

theorem Retains.drop (h : Retains slots cap hist lo) {lo' : Nat} (hle : lo ≤ lo') :
    Retains slots cap hist lo' :=
  fun i hi => h i (hle.trans hi)

theorem mod_ne_of_lt {i j : Nat} (hij : i < j) (hlt : j < i + cap) : i % cap ≠ j % cap := by
  intro h
  have hdvd : cap ∣ j - i := (Nat.modEq_iff_dvd' hij.le).1 h
  have := Nat.le_of_dvd (by omega) hdvd
  omega

theorem Retains.write (h : Retains slots cap hist lo) (hroom : hist.length < lo + cap) (e : α) :
    Retains (Function.update slots (hist.length % cap) e) cap hist lo := by
  intro i hi hlt
  rw [Function.update_of_ne (mod_ne_of_lt hlt (by omega))]
  exact h i hi hlt

theorem Retains.append (h : Retains slots cap hist lo) {e : α} (hslot : slots (hist.length % cap) = e) :
    Retains slots cap (hist ++ [e]) lo := by
  -- once the next slot holds an event, the event can join the history
  intro i hi hlt
  rw [List.length_append, List.length_singleton] at hlt
  rcases Nat.lt_or_ge i hist.length with hin | hge
  · rw [List.getElem_append_left hin]
    exact h i hi hin
  · obtain rfl : i = hist.length := by omega
    rw [hslot, List.getElem_concat_length rfl]

theorem Retains.next {pre : List α} (h : Retains slots cap hist pre.length) (hpre : pre <+: hist)
    (hlt : pre.length < hist.length) : pre ++ [slots (pre.length % cap)] <+: hist := by
  rw [h pre.length le_rfl hlt]
  obtain ⟨rest, rfl⟩ := hpre
  cases rest with
  | nil => simp at hlt
  | cons e rest => exact ⟨rest, by simp⟩

end Linux95.Base
