import Mathlib.Data.List.Induction

/-! Loops over a table that keep a pointer to the best entry so far, and insertion into a short
sorted output array. -/

namespace Linux95.Base

/-- `best = nullptr; for (x : xs) if (p(x) && (best == nullptr || x before best)) best = x;` -/
def scanBest {α : Type} (p : α → Bool) (before : α → α → Bool) (xs : List α) : Option α :=
  xs.foldl (fun best x =>
    if p x then
      match best with
      | none => some x
      | some b => if before x b then some x else some b
    else best) none

section scanBest

variable {α : Type} {p : α → Bool} {before : α → α → Bool}

theorem scanBest_concat (xs : List α) (x : α) :
    scanBest p before (xs ++ [x]) =
      if p x then
        match scanBest p before xs with
        | none => some x
        | some b => if before x b then some x else some b
      else scanBest p before xs := by
  simp only [scanBest, List.foldl_append, List.foldl_cons, List.foldl_nil]

theorem scanBest_eq_none (xs : List α) :
    scanBest p before xs = none ↔ ∀ x ∈ xs, p x = false := by
  induction xs using List.reverseRecOn with
  | nil => simp [scanBest]
  | append_singleton xs x ih =>
    rw [scanBest_concat]
    constructor
    · intro h
      cases hx : p x with
      | true =>
        rw [hx, if_pos rfl] at h
        split at h
        · cases h
        · split at h <;> cases h
      | false =>
        rw [hx, if_neg (by decide)] at h
        intro y hy
        rcases List.mem_append.mp hy with hy | hy
        · exact ih.mp h y hy
        · rw [List.mem_singleton.mp hy]
          exact hx
    · intro h
      have hx : p x = false := h x (by simp)
      rw [hx, if_neg (by decide)]
      exact ih.mpr fun y hy => h y (List.mem_append_left _ hy)

/-- Over a strict order the scan ends at an entry that no other one is before. -/
theorem scanBest_some (hirr : ∀ a, before a a = false)
    (htrans : ∀ a b c, before a b → before b c → before a c) (xs : List α) {b : α}
    (h : scanBest p before xs = some b) :
    b ∈ xs ∧ p b ∧ ∀ x ∈ xs, p x → before x b = false := by
  induction xs using List.reverseRecOn generalizing b with
  | nil => cases h
  | append_singleton xs x ih =>
    rw [scanBest_concat] at h
    cases hx : p x with
    | false =>
      rw [hx, if_neg (by decide)] at h
      obtain ⟨hmem, hb, hmin⟩ := ih h
      refine ⟨List.mem_append_left _ hmem, hb, ?_⟩
      intro y hy hpy
      rcases List.mem_append.mp hy with hy | hy
      · exact hmin y hy hpy
      · rw [List.mem_singleton.mp hy, hx] at hpy
        cases hpy
    | true =>
      rw [hx, if_pos rfl] at h
      cases hs : scanBest p before xs with
      | none =>
        rw [hs] at h
        cases h
        have hnone := (scanBest_eq_none xs).mp hs
        refine ⟨by simp, hx, ?_⟩
        intro y hy hpy
        rcases List.mem_append.mp hy with hy | hy
        · rw [hnone y hy] at hpy
          cases hpy
        · rw [List.mem_singleton.mp hy]
          exact hirr x
      | some a =>
        rw [hs] at h
        obtain ⟨hmem, ha, hmin⟩ := ih hs
        cases hxa : before x a with
        | true =>
          simp only [hxa, if_true, Option.some.injEq] at h
          subst h
          refine ⟨by simp, hx, ?_⟩
          intro y hy hpy
          rcases List.mem_append.mp hy with hy | hy
          · -- an earlier entry before `x` would also be before `a`
            cases hyx : before y x with
            | false => rfl
            | true =>
              have := htrans y x a hyx hxa
              rw [hmin y hy hpy] at this
              cases this
          · rw [List.mem_singleton.mp hy]
            exact hirr x
        | false =>
          simp only [hxa, Bool.false_eq_true, if_false, Option.some.injEq] at h
          subst h
          refine ⟨List.mem_append_left _ hmem, ha, ?_⟩
          intro y hy hpy
          rcases List.mem_append.mp hy with hy | hy
          · exact hmin y hy hpy
          · rw [List.mem_singleton.mp hy]
            exact hxa

end scanBest

/-- Insertion into an output array of `capacity` entries sorted by `key`, behind the entries whose
key is not larger; what no longer fits is dropped. -/
def insertByKey {α : Type} (key : α → Nat) (capacity : Nat) (output : List α) (x : α) : List α :=
  let position := output.findIdx fun y => decide (key x < key y)
  if position ≥ capacity then output
  else (output.take position ++ x :: output.drop position).take capacity

section insertByKey

variable {α : Type} (key : α → Nat) {capacity : Nat} {output : List α} (x : α)

theorem insertByKey_eq (h : output.length < capacity) :
    insertByKey key capacity output x =
      output.take (output.findIdx fun y => decide (key x < key y)) ++
        x :: output.drop (output.findIdx fun y => decide (key x < key y)) := by
  -- as long as the output has room nothing is dropped
  have hle : output.findIdx (fun y => decide (key x < key y)) ≤ output.length :=
    List.findIdx_le_length
  have hpos : ¬ output.findIdx (fun y => decide (key x < key y)) ≥ capacity := by omega
  simp only [insertByKey, if_neg hpos]
  apply List.take_of_length_le
  simp only [List.length_append, List.length_take, List.length_cons, List.length_drop]
  omega

theorem insertByKey_perm (h : output.length < capacity) :
    (insertByKey key capacity output x).Perm (x :: output) := by
  rw [insertByKey_eq key x h]
  apply List.perm_middle.trans
  rw [List.take_append_drop]

theorem insertByKey_sorted (h : output.length < capacity)
    (hs : output.Pairwise fun y y' => key y ≤ key y') :
    (insertByKey key capacity output x).Pairwise fun y y' => key y ≤ key y' := by
  rw [insertByKey_eq key x h]
  have hbelow : ∀ y ∈ output.take (output.findIdx fun y => decide (key x < key y)),
      key y ≤ key x := by
    intro y hy
    obtain ⟨i, hi, rfl⟩ := List.mem_iff_getElem.mp hy
    rw [List.length_take, Nat.lt_min] at hi
    have hnot := List.not_of_lt_findIdx hi.1
    rw [List.getElem_take]
    simpa using hnot
  -- the entry at the position is larger, and with it all entries behind
  have habove : ∀ y ∈ output.drop (output.findIdx fun y => decide (key x < key y)),
      key x ≤ key y := by
    intro y hy
    obtain ⟨i, hi, rfl⟩ := List.mem_iff_getElem.mp hy
    rw [List.length_drop] at hi
    have hlt : output.findIdx (fun y => decide (key x < key y)) < output.length := by omega
    have hfirst : key x < key output[output.findIdx fun y => decide (key x < key y)] := by
      simpa using List.findIdx_getElem (w := hlt)
    rw [List.getElem_drop]
    rcases Nat.eq_zero_or_pos i with rfl | hpos
    · simpa using Nat.le_of_lt hfirst
    · have hij := List.pairwise_iff_getElem.mp hs _ _ hlt
        (show _ + i < output.length by omega) (Nat.lt_add_of_pos_right hpos)
      omega
  have hsplit : (output.take (output.findIdx fun y => decide (key x < key y)) ++
      output.drop (output.findIdx fun y => decide (key x < key y))).Pairwise
        fun y y' => key y ≤ key y' := by
    rw [List.take_append_drop]
    exact hs
  obtain ⟨htake, hdrop, hcross⟩ := List.pairwise_append.mp hsplit
  apply List.pairwise_append.mpr
  refine ⟨htake, List.pairwise_cons.mpr ⟨habove, hdrop⟩, ?_⟩
  intro y hy y' hy'
  rcases List.mem_cons.mp hy' with rfl | hy'
  · exact hbelow y hy
  · exact hcross y hy y' hy'

theorem foldl_insertByKey (xs : List α) (h : xs.length ≤ capacity) :
    (xs.foldl (insertByKey key capacity) []).Perm xs ∧
      (xs.foldl (insertByKey key capacity) []).Pairwise fun y y' => key y ≤ key y' := by
  induction xs using List.reverseRecOn with
  | nil => simp
  | append_singleton xs x ih =>
    rw [List.length_append, List.length_singleton] at h
    obtain ⟨hperm, hsorted⟩ := ih (by omega)
    have hroom : (xs.foldl (insertByKey key capacity) []).length < capacity := by
      rw [hperm.length_eq]
      omega
    simp only [List.foldl_append, List.foldl_cons, List.foldl_nil]
    constructor
    · apply (insertByKey_perm key x hroom).trans
      apply (hperm.cons x).trans
      exact (List.perm_append_singleton x xs).symm
    · exact insertByKey_sorted key x hroom hsorted

end insertByKey

end Linux95.Base
