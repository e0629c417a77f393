import Mathlib.Data.Set.Basic

/-! Nodes that are found from a root through the slots of other nodes, and what is found when one slot is
given up and one is taken. -/

namespace Linux95.Base

/-- Every node has slots; a slot that leads on has a node as its target. -/
structure Forest (N S : Type) where
  root : N
  slots : N → Set S
  leads : S → Prop
  target : S → N

namespace Forest
variable {N S : Type}

inductive Node (f : Forest N S) : N → Prop
  | root : f.Node f.root
  | child {n : N} {s : S} (parent : f.Node n) (mem : s ∈ f.slots n) (leads : f.leads s) : f.Node (f.target s)

inductive Object (f : Forest N S) : Option S → N → Prop
  | root : f.Object none f.root
  | entry {n : N} {s : S} (parent : f.Node n) (mem : s ∈ f.slots n) : f.Object (some s) (f.target s)

/-- Only the slot `gone` is given up and only `new` is taken, in the node `place`; they may be one slot.
What is found by the taken slot was found before or has no slots, and what was found by the slot that is
given up is found by the taken one or had no slots. -/
structure Edit (f f' : Forest N S) (place : N) (gone new : Option S) : Prop where
  root : f'.root = f.root
  found : f.Node place
  slots : ∀ n, f.Node n → ∀ s, s ∈ f'.slots n ↔ s ∈ f.slots n ∧ gone ≠ some s ∨ n = place ∧ new = some s
  kept : ∀ n, f.Node n → ∀ s ∈ f.slots n, gone ≠ some s → (f'.leads s ↔ f.leads s) ∧ f'.target s = f.target s
  taken : ∀ s, new = some s → f'.leads s → f.Node (f'.target s) ∨ f'.slots (f'.target s) = ∅
  given : ∀ s, gone = some s → f.leads s →
    (∃ s', new = some s' ∧ f'.leads s' ∧ f'.target s' = f.target s ∧ ∀ n, f.Node n → s ∈ f.slots n → n = place) ∨
      f.slots (f.target s) = ∅

section Edit
variable {f f' : Forest N S} {place n : N} {gone new : Option S} {o : Option S}

theorem Edit.before (h : f.Edit f' place gone new) (hn : f'.Node n) :
    f.Node n ∨ ∃ s, new = some s ∧ f'.leads s ∧ n = f'.target s ∧ f'.slots n = ∅ := by
  induction hn with
  | root =>
    rw [h.root]
    exact Or.inl .root
  | @child n s _ mem leads ih =>
    rcases ih with hold | ⟨-, -, -, -, hempty⟩
    · rcases (h.slots n hold s).mp mem with ⟨hmem, hgone⟩ | ⟨-, hnew⟩
      · obtain ⟨hleads, htarget⟩ := h.kept n hold s hmem hgone
        rw [htarget]
        exact Or.inl (.child hold hmem (hleads.mp leads))
      · exact (h.taken s hnew leads).imp id fun hempty => ⟨s, hnew, leads, rfl, hempty⟩
    · rw [hempty] at mem
      cases mem

theorem Edit.after (h : f.Edit f' place gone new) (hn : f.Node n) :
    f'.Node n ∨ ∃ s, gone = some s ∧ f.leads s ∧ n = f.target s ∧ f.slots n = ∅ := by
  induction hn with
  | root =>
    rw [← h.root]
    exact Or.inl .root
  | @child n s parent mem leads ih =>
    rcases ih with hstill | ⟨-, -, -, -, hempty⟩
    swap
    · rw [hempty] at mem
      cases mem
    by_cases hgone : gone = some s
    · rcases h.given s hgone leads with ⟨s', hnew, hleads, htarget, hplace⟩ | hempty
      · rw [← htarget]
        exact Or.inl (.child hstill ((h.slots n parent s').mpr (Or.inr ⟨hplace n parent mem, hnew⟩)) hleads)
      · exact Or.inr ⟨s, hgone, leads, rfl, hempty⟩
    · obtain ⟨hleads, htarget⟩ := h.kept n parent s mem hgone
      rw [← htarget]
      exact Or.inl (.child hstill ((h.slots n parent s).mpr (Or.inl ⟨mem, hgone⟩)) (hleads.mpr leads))

theorem Edit.slot (h : f.Edit f' place gone new) {s : S} (hn : f'.Node n) (hs : s ∈ f'.slots n) :
    f.Node n ∧ (s ∈ f.slots n ∧ gone ≠ some s ∨ n = place ∧ new = some s) := by
  rcases h.before hn with hold | ⟨-, -, -, -, hempty⟩
  · exact ⟨hold, (h.slots n hold s).mp hs⟩
  · rw [hempty] at hs
    cases hs

theorem Edit.object_before (h : f.Edit f' place gone new) (ho : f'.Object o n) :
    f.Object o n ∧ (∀ s, o = some s → gone ≠ some s) ∨ ∃ s, o = some s ∧ new = some s ∧ n = f'.target s := by
  cases ho with
  | root =>
    rw [h.root]
    exact Or.inl ⟨.root, fun s hs => nomatch hs⟩
  | @entry m s parent mem =>
    obtain ⟨hold, ⟨hmem, hgone⟩ | ⟨-, hnew⟩⟩ := h.slot parent mem
    · rw [(h.kept m hold s hmem hgone).2]
      refine Or.inl ⟨.entry hold hmem, fun s' hs' => ?_⟩
      rw [← hs']
      exact hgone
    · exact Or.inr ⟨s, rfl, hnew, rfl⟩

theorem Edit.object_after (h : f.Edit f' place gone new) (ho : f.Object o n)
    (hgone : ∀ s, o = some s → gone ≠ some s) : f'.Object o n := by
  cases ho with
  | root =>
    rw [← h.root]
    exact .root
  | @entry m s parent mem =>
    rcases h.after parent with hstill | ⟨-, -, -, -, hempty⟩
    · rw [← (h.kept m parent s mem (hgone s rfl)).2]
      exact .entry hstill ((h.slots m parent s).mpr (Or.inl ⟨mem, hgone s rfl⟩))
    · rw [hempty] at mem
      cases mem

theorem Edit.object_new (h : f.Edit f' place gone new) {s : S} (hnew : new = some s) (hplace : f'.Node place) :
    f'.Object (some s) (f'.target s) := .entry hplace ((h.slots place h.found s).mpr (Or.inr ⟨rfl, hnew⟩))

end Edit

end Forest

end Linux95.Base
