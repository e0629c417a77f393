import Mathlib.Data.List.Nodup

/-! Paths through links that each have at most one successor: `next x` is `none` where there is no link,
`some none` at an end, and `some (some y)` where `y` follows. -/

namespace Linux95.Base

inductive Path {α : Type} (next : α → Option (Option α)) : α → List α → Prop
  | last {x : α} (h : next x = some none) : Path next x [x]
  | next {x y : α} {rest : List α} (h : next x = some (some y)) (hrest : Path next y rest) :
      Path next x (x :: rest)

namespace Path
variable {α : Type} {next next' : α → Option (Option α)} {x y : α} {l l' : List α}

theorem head_mem (h : Path next x l) : x ∈ l := by
  cases h with
  | last => exact List.mem_cons_self
  | next => exact List.mem_cons_self

theorem linked (h : Path next x l) : ∀ y ∈ l, ∃ r, next y = some r := by
  induction h with
  | last h =>
    intro y hy
    rw [List.mem_singleton.mp hy]
    exact ⟨_, h⟩
  | next h _ ih =>
    intro y hy
    rcases List.mem_cons.mp hy with rfl | hy
    · exact ⟨_, h⟩
    · exact ih y hy

theorem unique (h : Path next x l) (h' : Path next x l') : l = l' := by
  induction h generalizing l' with
  | last h =>
    cases h' with
    | last => rfl
    | next h' _ =>
      rw [h] at h'
      cases h'
  | next h _ ih =>
    cases h' with
    | last h' =>
      rw [h] at h'
      cases h'
    | next h' hrest' =>
      rw [h] at h'
      obtain rfl := Option.some.inj (Option.some.inj h')
      rw [ih hrest']

theorem suffix (h : Path next x l) {y : α} (hy : y ∈ l) : ∃ l', Path next y l' ∧ l' <:+ l := by
  induction h with
  | last h =>
    rw [List.mem_singleton.mp hy]
    exact ⟨_, .last h, List.suffix_refl _⟩
  | next h hrest ih =>
    rcases List.mem_cons.mp hy with rfl | hy
    · exact ⟨_, .next h hrest, List.suffix_refl _⟩
    · obtain ⟨l', hl', hsuffix⟩ := ih hy
      exact ⟨l', hl', hsuffix.trans (List.suffix_cons _ _)⟩

theorem nodup (h : Path next x l) : l.Nodup := by
  induction h with
  | last => exact List.nodup_singleton _
  | next h hrest ih =>
    refine List.nodup_cons.mpr ⟨fun hmem => ?_, ih⟩
    obtain ⟨l', hl', hsuffix⟩ := hrest.suffix hmem
    have heq := hl'.unique (.next h hrest)
    have hle := hsuffix.length_le
    rw [heq, List.length_cons] at hle
    omega

theorem congr (h : Path next x l) (hnext : ∀ y ∈ l, next' y = next y) : Path next' x l := by
  induction h with
  | last h => exact .last ((hnext _ List.mem_cons_self).trans h)
  | next h _ ih =>
    exact .next ((hnext _ List.mem_cons_self).trans h)
      (ih fun y hy => hnext y (List.mem_cons_of_mem _ hy))

theorem uncons (h : Path next x (y :: l)) (hne : l ≠ []) :
    y = x ∧ ∃ z, next x = some (some z) ∧ Path next z l := by
  cases h with
  | last => exact absurd rfl hne
  | next h hrest => exact ⟨rfl, _, h, hrest⟩

theorem link_split (h : Path next x (l ++ y :: l')) : next y = some l'.head? := by
  induction l generalizing x with
  | nil =>
    cases h with
    | last h => exact h
    | next h hrest =>
      rw [h]
      cases hrest with
      | last => rfl
      | next => rfl
  | cons w l ih =>
    obtain ⟨-, _, -, hrest⟩ := h.uncons (List.append_ne_nil_of_right_ne_nil l (List.cons_ne_nil y l'))
    exact ih hrest

theorem concat {z : α} (h : Path next x (l ++ [y])) (hkeep : ∀ w ∈ l, next' w = next w)
    (hlink : next' y = some (some z)) (hend : next' z = some none) : Path next' x (l ++ [y, z]) := by
  induction l generalizing x with
  | nil =>
    cases h with
    | last _ => exact .next hlink (.last hend)
    | next _ hrest => cases hrest
  | cons w l ih =>
    obtain ⟨rfl, v, hnext, hrest⟩ := h.uncons (List.append_ne_nil_of_right_ne_nil l (List.cons_ne_nil y []))
    refine .next ((hkeep w List.mem_cons_self).trans hnext) (ih hrest fun v hv => ?_)
    exact hkeep v (List.mem_cons_of_mem w hv)

theorem within {S : α → Prop} (h : Path next x l) (hx : S x)
    (hclosed : ∀ y z, S y → next y = some (some z) → S z) : ∀ y ∈ l, S y := by
  induction h with
  | last h =>
    intro y hy
    rw [List.mem_singleton.mp hy]
    exact hx
  | next h _ ih =>
    intro y hy
    rcases List.mem_cons.mp hy with rfl | hy
    · exact hx
    · exact ih (hclosed _ _ hx h) y hy

end Path

end Linux95.Base
