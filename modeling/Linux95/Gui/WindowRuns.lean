import Linux95.Gui.WindowSteps

/-! What holds of the window manager after every sequence of its operations. -/

namespace Linux95.Gui
open Base Windows

inductive Op where
  | addWindow (id : WindowId) (bounds : Rect) (resizable closable : Bool)
  | focus (id : WindowId)
  | beginDrag (id : WindowId) (point : Point)
  | beginResize (id : WindowId) (point : Point)
  | pointerMove (point : Point)
  | endPointerAction
  | minimize (id : WindowId)
  | restore (id : WindowId)
  | close (id : WindowId)
  deriving DecidableEq, Repr

def Op.raises : Op → Option WindowId
  | .addWindow id .. | .focus id | .beginDrag id _ | .beginResize id _ | .restore id => some id
  | .pointerMove _ | .endPointerAction | .minimize _ | .close _ => none

namespace WindowManager

variable {wm : WindowManager}

def step (wm : WindowManager) : Op → WindowManager
  | .addWindow id bounds resizable closable => (wm.addWindow id bounds resizable closable).2
  | .focus id => (wm.focus id).2
  | .beginDrag id point => (wm.beginDrag id point).2
  | .beginResize id point => (wm.beginResize id point).2
  | .pointerMove point => wm.pointerMove point
  | .endPointerAction => wm.endPointerAction
  | .minimize id => (wm.minimize id).2
  | .restore id => (wm.restore id).2
  | .close id => (wm.close id).2

def run (wm : WindowManager) (ops : List Op) : WindowManager := ops.foldl step wm

theorem inv_initial : Inv initial := by
  have hdead : ∀ i, initial.windows.live i = false := fun _ => rfl
  have hcount : initial.windows.count = 0 := by decide
  refine ⟨⟨⟨?_, ?_⟩, ⟨?_, ?_, ?_⟩, ?_, ?_, PointerOk.none rfl⟩, ?_⟩
  · exact fun i hi => absurd hi (by rw [hdead]; decide)
  · exact fun i j hi => absurd hi (by rw [hdead]; decide)
  · exact fun i j hi => absurd hi (by rw [hdead]; decide)
  · exact fun i hi => absurd hi (by rw [hdead]; decide)
  · exact fun v hv => absurd hv (by rw [hcount]; exact Nat.not_lt_zero v)
  · exact fun i hi => absurd hi (by rw [hdead]; decide)
  · exact fun i hi => absurd hi (show WindowState.closed ≠ .minimized by decide)
  · exact Or.inr ⟨fun _ => rfl, rfl⟩

theorem Inv.step (h : Inv wm) (op : Op) :
    Inv (wm.step op) ∧ Change wm.windows (wm.step op).windows op.raises := by
  cases op with
  | addWindow id bounds resizable closable => exact h.addWindowStep id bounds resizable closable
  | focus id => exact h.focusStep id
  | beginDrag id point => exact h.beginDragStep id point
  | beginResize id point => exact h.beginResizeStep id point
  | pointerMove point => exact h.pointerMoveStep point
  | endPointerAction => exact ⟨h.endPointerAction, Change.refl _ _⟩
  | minimize id => exact h.minimizeStep id
  | restore id => exact h.restoreStep id
  | close id => exact h.closeStep id

theorem Inv.run (h : Inv wm) (ops : List Op) : Inv (wm.run ops) := by
  induction ops generalizing wm with
  | nil => exact h
  | cons op ops ih => exact ih (h.step op).1

section restore

variable {id : WindowId} {w : Window}

theorem find_some (h : wm.find id = some w) :
    ∃ i, wm.findMutable id = some i ∧ wm.windows i = w := by
  rw [find, Option.map_eq_some_iff] at h
  exact h

end restore

section hitTest

theorem openWindowsInZOrder_spec (wm : WindowManager) {capacity : Nat}
    (hcap : maxWindows ≤ capacity) :
    (∀ i, i ∈ wm.openWindowsInZOrder capacity ↔ wm.windows.isOpen i = true) ∧
      (wm.openWindowsInZOrder capacity).Pairwise fun i j => wm.windows.z i ≤ wm.windows.z j := by
  have hlen : (slots.filter wm.windows.isOpen).length ≤ capacity := by
    apply (List.length_filter_le _ _).trans
    rw [slots, List.length_finRange]
    exact hcap
  obtain ⟨hperm, hsorted⟩ := foldl_insertByKey wm.windows.z _ hlen
  refine ⟨?_, hsorted⟩
  intro i
  rw [openWindowsInZOrder, hperm.mem_iff, List.mem_filter]
  simp [mem_slots]

theorem Inv.hitTest_eq (h : Inv wm) (point : Point) {capacity : Nat} (hcap : maxWindows ≤ capacity) :
    wm.hitTest point =
      (((wm.openWindowsInZOrder capacity).filter fun i =>
        contains (wm.windows i).bounds point).getLast?.map fun i => (wm.windows i).id).getD 0 := by
  obtain ⟨hmem, hsorted⟩ := wm.openWindowsInZOrder_spec hcap
  generalize wm.openWindowsInZOrder capacity = order at hmem hsorted
  have hmem' : ∀ i, i ∈ order.filter (fun i => contains (wm.windows i).bounds point) ↔
      (wm.windows.isOpen i && contains (wm.windows i).bounds point) = true := by
    intro i
    rw [List.mem_filter, hmem, Bool.and_eq_true]
  rw [hitTest]
  cases hs : scanBest (fun i => wm.windows.isOpen i && contains (wm.windows i).bounds point)
      (fun i j => decide (wm.windows.z i > wm.windows.z j)) slots with
  | none =>
    have hnone := (scanBest_eq_none _).mp hs
    have hempty : order.filter (fun i => contains (wm.windows i).bounds point) = [] := by
      apply List.eq_nil_iff_forall_not_mem.mpr
      intro i hi
      rw [hmem', hnone i (mem_slots i)] at hi
      cases hi
    rw [hempty]
    rfl
  | some best =>
    obtain ⟨-, hbest, hmax⟩ := scanBest_some (by simp)
      (fun a b c hab hbc => by simp only [decide_eq_true_eq] at *; omega) _ hs
    have hin := (hmem' best).mpr hbest
    cases hl : (order.filter fun i => contains (wm.windows i).bounds point).getLast? with
    | none =>
      rw [List.getLast?_eq_none_iff] at hl
      rw [hl] at hin
      cases hin
    | some last =>
      obtain ⟨below, hsplit⟩ := List.getLast?_eq_some_iff.mp hl
      have hlast : (wm.windows.isOpen last && contains (wm.windows last).bounds point) = true := by
        rw [← hmem', hsplit]
        simp
      have hle : wm.windows.z best ≤ wm.windows.z last := by
        have hpair := hsorted.filter fun i => contains (wm.windows i).bounds point
        rw [hsplit] at hpair hin
        rcases List.mem_append.mp hin with hb | hb
        · exact (List.pairwise_append.mp hpair).2.2 best hb last (by simp)
        · rw [List.mem_singleton.mp hb]
      have hge : wm.windows.z last ≤ wm.windows.z best := by
        simpa using hmax last (mem_slots last) hlast
      rw [Bool.and_eq_true] at hbest hlast
      obtain rfl : best = last :=
        h.ranked.inj best last (live_of_isOpen hbest.1) (live_of_isOpen hlast.1) (by omega)
      rfl

end hitTest

/-- What holds between any two calls. The entries in use are the windows that are not closed. -/
structure Sound (wm : WindowManager) : Prop where
  ids_ne_zero : ∀ i, wm.windows.live i = true → (wm.windows i).id ≠ 0
  ids_distinct : ∀ i j, wm.windows.live i = true → wm.windows.live j = true →
    (wm.windows i).id = (wm.windows j).id → i = j
  z_values : (Finset.univ.filter fun i => wm.windows.live i = true).image wm.windows.z =
    Finset.range (Finset.univ.filter fun i => wm.windows.live i = true).card
  focus_top :
    (∃ m, wm.windows.isOpen m = true ∧
      (∀ j, wm.windows.isOpen j = true → wm.windows.z j ≤ wm.windows.z m) ∧
      wm.focused = (wm.windows m).id) ∨
    ((∀ j, wm.windows.isOpen j = false) ∧ wm.focused = 0)
  bounds_fit : ∀ i, wm.windows.live i = true → (wm.windows i).bounds.Fits
  pointer_open : wm.pointerAction ≠ .none →
    ∃ w, wm.find wm.pointerWindow = some w ∧ w.state = .opened
  /-- A window that is minimised, stays so through any further calls and is then restored. -/
  restore_bounds : ∀ id w, wm.find id = some w → w.state = .opened → ∀ later,
    (∀ pre, pre <+: later → ∃ v, ((wm.minimize id).2.run pre).find id = some v ∧
      v.state = .minimized) →
    (((wm.minimize id).2.run later).restore id).1 = true ∧
      ∃ v, (((wm.minimize id).2.run later).restore id).2.find id = some v ∧
        v.state = .opened ∧ v.bounds = w.bounds
  order_kept : ∀ (op : Op) (i j : Slot), wm.windows.live i = true → wm.windows.live j = true →
    (wm.step op).windows.live i = true → (wm.step op).windows.live j = true →
    op.raises ≠ some (wm.windows i).id → op.raises ≠ some (wm.windows j).id →
    ((wm.step op).windows.z i < (wm.step op).windows.z j ↔ wm.windows.z i < wm.windows.z j)
  hit_test : ∀ (point : Point) (capacity : Nat), maxWindows ≤ capacity →
    wm.hitTest point =
      (((wm.openWindowsInZOrder capacity).filter fun i =>
        contains (wm.windows i).bounds point).getLast?.map fun i => (wm.windows i).id).getD 0

end WindowManager

end Linux95.Gui
