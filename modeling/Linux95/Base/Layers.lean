import Mathlib.Data.Set.Basic
import Mathlib.Data.List.Induction
import Mathlib.Tactic.Common

/-! Pictures made of layers. A drawing routine that never reads what it paints on is the map of the
points it writes to the last value written there. A picture is a base with layers over it, and a
part of it is repaired by repainting the layers that meet the part. -/

namespace Linux95.Base

variable {P C : Type}

abbrev Drawing (P C : Type) := P → Option C

namespace Drawing

def nothing : Drawing P C := fun _ => none

def seq (a b : Drawing P C) : Drawing P C := fun p => (b p).or (a p)

def seqAll : List (Drawing P C) → Drawing P C
  | [] => nothing
  | a :: rest => seq a (seqAll rest)

def apply (a : Drawing P C) (image : P → C) : P → C := fun p => (a p).getD (image p)

def Within (a : Drawing P C) (s : Set P) : Prop := ∀ p, a p ≠ none → p ∈ s

variable {a b : Drawing P C} {s t : Set P}

theorem seq_apply (p : P) : seq a b p = (b p).or (a p) := rfl

theorem seqAll_cons (l : List (Drawing P C)) (p : P) : seqAll (a :: l) p = (seqAll l p).or (a p) :=
  rfl

theorem seqAll_append (l l' : List (Drawing P C)) (p : P) :
    seqAll (l ++ l') p = (seqAll l' p).or (seqAll l p) := by
  induction l with
  | nil => simp [seqAll, nothing]
  | cons a l ih => rw [List.cons_append, seqAll_cons, seqAll_cons, ih, Option.or_assoc]

theorem seqAll_eq_none {l : List (Drawing P C)} {p : P} :
    seqAll l p = none ↔ ∀ a ∈ l, a p = none := by
  induction l with
  | nil => simp [seqAll, nothing]
  | cons a l ih =>
    rw [seqAll_cons, Option.or_eq_none_iff, ih, List.forall_mem_cons]
    exact and_comm

theorem seqAll_of_const {l : List (Drawing P C)} {p : P} {c : C}
    (h : ∀ a ∈ l, a p = none ∨ a p = some c) (hex : ∃ a ∈ l, a p = some c) :
    seqAll l p = some c := by
  induction l with
  | nil =>
    obtain ⟨_, ha, -⟩ := hex
    cases ha
  | cons a l ih =>
    have hrest : ∀ b ∈ l, b p = none ∨ b p = some c := fun b hb => h b (List.mem_cons_of_mem a hb)
    rw [seqAll_cons]
    by_cases hl : ∃ b ∈ l, b p = some c
    · rw [ih hrest hl]
      rfl
    · have hnone : seqAll l p = none := by
        apply seqAll_eq_none.mpr
        intro b hb
        exact (hrest b hb).resolve_right fun hc => hl ⟨b, hb, hc⟩
      obtain ⟨b, hb, hc⟩ := hex
      rcases List.mem_cons.mp hb with rfl | hb
      · rw [hnone, hc]
        rfl
      · exact absurd ⟨b, hb, hc⟩ hl

theorem within_nothing : (nothing : Drawing P C).Within s := fun _ h => absurd rfl h

theorem Within.mono (h : a.Within s) (hst : s ⊆ t) : a.Within t := fun p hp => hst (h p hp)

theorem Within.seq (ha : a.Within s) (hb : b.Within s) : (seq a b).Within s := by
  intro p hp
  cases hbp : b p with
  | some c => exact hb p (by rw [hbp]; exact Option.some_ne_none c)
  | none =>
    rw [seq_apply, hbp, Option.none_or] at hp
    exact ha p hp

theorem Within.seqAll {l : List (Drawing P C)} (h : ∀ a ∈ l, a.Within s) : (seqAll l).Within s := by
  induction l with
  | nil => exact within_nothing
  | cons a l ih =>
    exact (h a List.mem_cons_self).seq (ih fun b hb => h b (List.mem_cons_of_mem a hb))

end Drawing

open Drawing

structure Layer (P C : Type) where
  region : Set P
  drawing : Drawing P C

def Layer.Confined (l : Layer P C) : Prop := l.drawing.Within l.region

open Classical in
noncomputable def layersOn (layers : List (Layer P C)) (d : Set P) : List (Layer P C) :=
  layers.filter fun l => (l.region ∩ d).Nonempty

def top (layers : List (Layer P C)) : Drawing P C := seqAll (layers.map Layer.drawing)

def picture (base : P → C) (layers : List (Layer P C)) (p : P) : C := (top layers p).getD (base p)

open Classical in
noncomputable def repaint (base : P → C) (layers : List (Layer P C)) (d : Set P) : Drawing P C :=
  seq (fun p => if p ∈ d then some (base p) else none) (top (layersOn layers d))

noncomputable def repaintAll {I : Type} (base : P → C) (layers : List (Layer P C)) (area : I → Set P)
    (parts : List I) (image : P → C) : P → C :=
  parts.foldl (fun image i => (repaint base layers (area i)).apply image) image

def Reaches (layers : List (Layer P C)) (d : Set P) (p : P) : Prop :=
  p ∈ d ∨ top (layersOn layers d) p ≠ none

/-- The repaint of `d` writes to `p` outside of `d`, and the uppermost layer that it draws there
differs from what the layers show. -/
def Spoils (layers : List (Layer P C)) (d : Set P) (p : P) : Prop :=
  p ∉ d ∧ ∃ c, top (layersOn layers d) p = some c ∧ top layers p ≠ some c

section Repaint
variable {base : P → C} {layers : List (Layer P C)} {d : Set P} {p : P}

theorem top_layersOn_append (layers' : List (Layer P C)) :
    top (layersOn (layers ++ layers') d) p =
      (top (layersOn layers' d) p).or (top (layersOn layers d) p) := by
  unfold top layersOn
  rw [List.filter_append, List.map_append, seqAll_append]

theorem top_layersOn_cons_of_meets {l : Layer P C} (h : (l.region ∩ d).Nonempty) :
    top (layersOn (l :: layers) d) p = (top (layersOn layers d) p).or (l.drawing p) := by
  unfold top layersOn
  rw [List.filter_cons_of_pos (by simpa using h), List.map_cons, seqAll_cons]

theorem top_layersOn_cons_of_not_meets {l : Layer P C} (h : ¬ (l.region ∩ d).Nonempty) :
    top (layersOn (l :: layers) d) p = top (layersOn layers d) p := by
  unfold top layersOn
  rw [List.filter_cons_of_neg (by simpa using h)]

theorem layersOn_of_empty (h : ∀ q, q ∉ d) : layersOn layers d = [] := by
  unfold layersOn
  rw [List.filter_eq_nil_iff]
  intro l _ hmeet
  have hmeet : (l.region ∩ d).Nonempty := by simpa using hmeet
  obtain ⟨q, -, hq⟩ := hmeet
  exact h q hq

theorem top_layersOn_of_mem (hlayers : ∀ l ∈ layers, l.Confined) (hp : p ∈ d) :
    top (layersOn layers d) p = top layers p := by
  induction layers with
  | nil => rfl
  | cons l layers ih =>
    have ih := ih fun l' hl' => hlayers l' (List.mem_cons_of_mem l hl')
    by_cases hmeet : (l.region ∩ d).Nonempty
    · rw [top_layersOn_cons_of_meets hmeet, ih]
      rfl
    · have hnone : l.drawing p = none := by
        by_contra hdraws
        exact hmeet ⟨p, hlayers l List.mem_cons_self p hdraws, hp⟩
      rw [top_layersOn_cons_of_not_meets hmeet, ih]
      unfold top
      rw [List.map_cons, seqAll_cons, hnone, Option.or_none]

theorem top_of_layersOn {c : C} (h : top (layersOn layers d) p = some c) : top layers p ≠ none := by
  intro hnone
  have hall := seqAll_eq_none.mp hnone
  have hsub : top (layersOn layers d) p = none := by
    apply seqAll_eq_none.mpr
    intro a ha
    obtain ⟨l, hl, rfl⟩ := List.mem_map.mp ha
    exact hall _ (List.mem_map_of_mem (List.mem_filter.mp hl).1)
  rw [hsub] at h
  cases h

theorem repaint_of_mem (hlayers : ∀ l ∈ layers, l.Confined) (hp : p ∈ d) :
    repaint base layers d p = some (picture base layers p) := by
  unfold repaint picture
  rw [seq_apply, top_layersOn_of_mem hlayers hp, if_pos hp]
  cases top layers p <;> rfl

theorem repaint_of_notMem (hp : p ∉ d) :
    repaint base layers d p = top (layersOn layers d) p := by
  unfold repaint
  rw [seq_apply, if_neg hp, Option.or_none]

theorem repaint_eq_none (hp : ¬ Reaches layers d p) : repaint base layers d p = none := by
  unfold Reaches at hp
  push Not at hp
  rw [repaint_of_notMem hp.1, hp.2]

theorem repaint_of_reaches (hlayers : ∀ l ∈ layers, l.Confined) (h : Reaches layers d p) :
    (¬ Spoils layers d p → repaint base layers d p = some (picture base layers p)) ∧
      (Spoils layers d p → ∃ c, repaint base layers d p = some c ∧ c ≠ picture base layers p) := by
  constructor
  · intro hclean
    by_cases hp : p ∈ d
    · exact repaint_of_mem hlayers hp
    · obtain ⟨c, hc⟩ := Option.ne_none_iff_exists'.mp (h.resolve_left hp)
      have htop : top layers p = some c := by
        by_contra hne
        exact hclean ⟨hp, c, hc, hne⟩
      rw [repaint_of_notMem hp, hc, picture, htop, Option.getD_some]
  · rintro ⟨hp, c, hc, hne⟩
    refine ⟨c, by rw [repaint_of_notMem hp, hc], ?_⟩
    obtain ⟨c', hc'⟩ := Option.ne_none_iff_exists'.mp (top_of_layersOn hc)
    rw [picture, hc', Option.getD_some]
    rintro rfl
    exact hne hc'

theorem exists_last {α : Type} {Q : α → Prop} {l : List α} (h : ∃ a ∈ l, Q a) :
    ∃ before a after, l = before ++ a :: after ∧ Q a ∧ ∀ b ∈ after, ¬ Q b := by
  induction l with
  | nil =>
    obtain ⟨_, ha, -⟩ := h
    cases ha
  | cons x l ih =>
    by_cases hl : ∃ a ∈ l, Q a
    · obtain ⟨before, a, after, rfl, ha, hafter⟩ := ih hl
      exact ⟨x :: before, a, after, rfl, ha, hafter⟩
    · obtain ⟨a, ha, hQ⟩ := h
      rcases List.mem_cons.mp ha with rfl | ha
      · exact ⟨[], a, l, rfl, hQ, fun b hb hQb => hl ⟨b, hb, hQb⟩⟩
      · exact absurd ⟨a, ha, hQ⟩ hl

end Repaint

section Parts
variable {I : Type} {base : P → C} {layers : List (Layer P C)} {area : I → Set P} {p : P}

theorem repaintAll_unreached {parts : List I} (image : P → C)
    (h : ∀ i ∈ parts, ¬ Reaches layers (area i) p) :
    repaintAll base layers area parts image p = image p := by
  induction parts generalizing image with
  | nil => rfl
  | cons i parts ih =>
    have hi : (repaint base layers (area i)).apply image p = image p := by
      rw [Drawing.apply, repaint_eq_none (h i List.mem_cons_self), Option.getD_none]
    have hrest := ih ((repaint base layers (area i)).apply image)
      fun j hj => h j (List.mem_cons_of_mem i hj)
    rw [← hi, ← hrest]
    rfl

theorem repaintAll_last (before after : List I) {i : I} (image : P → C) {c : C}
    (hc : repaint base layers (area i) p = some c) (h : ∀ j ∈ after, ¬ Reaches layers (area j) p) :
    repaintAll base layers area (before ++ i :: after) image p = c := by
  unfold repaintAll
  rw [List.foldl_append, List.foldl_cons]
  refine (repaintAll_unreached _ h).trans ?_
  rw [Drawing.apply, hc, Option.getD_some]

/-- Repainting the parts repairs a picture that is damaged on a set exactly when one of the repaints reaches
each damaged point, and every point that one of them spoils is written again by a later one. -/
theorem repaintAll_iff [Nontrivial C] (hlayers : ∀ l ∈ layers, l.Confined) (parts : List I) (damaged : Set P) :
    (∀ image : P → C, (∀ p, p ∉ damaged → image p = picture base layers p) →
        ∀ p, repaintAll base layers area parts image p = picture base layers p) ↔
      (∀ p ∈ damaged, ∃ i ∈ parts, Reaches layers (area i) p) ∧
      ∀ p before i after, parts = before ++ i :: after → Spoils layers (area i) p →
        ∃ j ∈ after, Reaches layers (area j) p := by
  classical
  constructor
  · intro hrepair
    refine ⟨fun p hp => ?_, fun p before i after hparts hspoils => ?_⟩
    · by_contra hunreached
      push Not at hunreached
      obtain ⟨c, hc⟩ := exists_ne (picture base layers p)
      have hother : ∀ q, q ∉ damaged → Function.update (picture base layers) p c q = picture base layers q := by
        intro q hq
        refine Function.update_of_ne ?_ _ _
        rintro rfl
        exact hq hp
      have hright := hrepair _ hother p
      rw [repaintAll_unreached _ hunreached, Function.update_self] at hright
      exact hc hright
    · by_contra hlast
      push Not at hlast
      have hreach : Reaches layers (area i) p := by
        obtain ⟨_, c, hc, -⟩ := hspoils
        exact Or.inr (by rw [hc]; exact Option.some_ne_none c)
      obtain ⟨c, hc, hne⟩ : ∃ c, repaint base layers (area i) p = some c ∧ c ≠ picture base layers p :=
        (repaint_of_reaches hlayers hreach).2 hspoils
      have hright := hrepair (picture base layers) (fun _ _ => rfl) p
      rw [hparts, repaintAll_last before after _ hc hlast] at hright
      exact hne hright
  · rintro ⟨hreached, hlater⟩ image himage p
    by_cases hex : ∃ i ∈ parts, Reaches layers (area i) p
    · obtain ⟨before, i, after, hparts, hreach, hafter⟩ := exists_last hex
      have hclean : ¬ Spoils layers (area i) p := by
        intro hspoils
        obtain ⟨j, hj, hreach'⟩ := hlater p before i after hparts hspoils
        exact hafter j hj hreach'
      rw [hparts]
      exact repaintAll_last before after image ((repaint_of_reaches hlayers hreach).1 hclean) hafter
    · push Not at hex
      rw [repaintAll_unreached image hex]
      refine himage p fun hp => ?_
      obtain ⟨i, hi, hreach⟩ := hreached p hp
      exact hex i hi hreach

end Parts

end Linux95.Base
