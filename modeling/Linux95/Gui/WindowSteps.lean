import Linux95.Gui.WindowOrder

/-! The invariant of the window manager and what each of its operations does to it. -/

namespace Linux95.Gui
open Base

structure Rect.Fits (r : Rect) : Prop where
  width : minWidth ≤ r.width
  height : minHeight ≤ r.height
  left : 0 ≤ r.x
  right : r.x + r.width ≤ screenWidth
  top : panelHeight ≤ r.y
  bottom : r.y + r.height ≤ screenHeight

theorem clampValue_mem (value : Int) {lo hi : Int} (h : lo ≤ hi) :
    lo ≤ clampValue value lo hi ∧ clampValue value lo hi ≤ hi := by
  rw [clampValue]
  split
  · omega
  · split <;> omega

theorem clampBounds_fits (r : Rect) : (clampBounds r).Fits := by
  have hw := clampValue_mem r.width (show minWidth ≤ screenWidth by decide)
  have hh := clampValue_mem r.height (show minHeight ≤ screenHeight - panelHeight by decide)
  have hx := clampValue_mem r.x
    (show 0 ≤ screenWidth - clampValue r.width minWidth screenWidth by omega)
  have hy := clampValue_mem r.y (show panelHeight ≤
    screenHeight - clampValue r.height minHeight (screenHeight - panelHeight) by omega)
  exact ⟨hw.1, hh.1, hx.1, by simp only [clampBounds]; omega, hy.1,
    by simp only [clampBounds]; omega⟩

theorem draggedBounds_fits {start : Rect} (h : start.Fits) (dx dy : Int) :
    (WindowManager.draggedBounds start dx dy).Fits := by
  obtain ⟨hw, hh, hl, hr, ht, hb⟩ := h
  have hx := clampValue_mem (int32 (start.x + dx))
    (show 0 ≤ screenWidth - start.width by omega)
  have hy := clampValue_mem (int32 (start.y + dy))
    (show panelHeight ≤ screenHeight - start.height by omega)
  exact ⟨hw, hh, hx.1, by simp only [WindowManager.draggedBounds]; omega, hy.1,
    by simp only [WindowManager.draggedBounds]; omega⟩

theorem resizedBounds_fits {start bounds : Rect} (h : start.Fits) (hx : bounds.x = start.x)
    (hy : bounds.y = start.y) (dx dy : Int) :
    (WindowManager.resizedBounds start bounds dx dy).Fits := by
  obtain ⟨hw, hh, hl, hr, ht, hb⟩ := h
  have hw' := clampValue_mem (int32 (start.width + dx))
    (show minWidth ≤ screenWidth - start.x by omega)
  have hh' := clampValue_mem (int32 (start.height + dy))
    (show minHeight ≤ screenHeight - start.y by omega)
  exact ⟨hw'.1, hh'.1, by simp only [WindowManager.resizedBounds]; omega,
    by simp only [WindowManager.resizedBounds]; omega, by simp only [WindowManager.resizedBounds]; omega,
    by simp only [WindowManager.resizedBounds]; omega⟩

namespace WindowManager

open Windows

variable {wm wm' : WindowManager} {id : WindowId} {i j t : Slot}

/-- The drag or resize in progress is on an open window; a resize keeps its corner. -/
def PointerOk (wm : WindowManager) : Prop :=
  wm.pointerAction ≠ .none → ∃ i, wm.windows.isOpen i = true ∧
    (wm.windows i).id = wm.pointerWindow ∧ wm.pointerStartBounds.Fits ∧
    (wm.pointerAction = .resize → (wm.windows i).bounds.x = wm.pointerStartBounds.x ∧
      (wm.windows i).bounds.y = wm.pointerStartBounds.y)

structure Core (wm : WindowManager) : Prop where
  ids : DistinctIds wm.windows
  ranked : Ranked wm.windows
  fits : ∀ i, wm.windows.live i = true → (wm.windows i).bounds.Fits
  kept : ∀ i, (wm.windows i).state = .minimized →
    (wm.windows i).restoreBounds = (wm.windows i).bounds
  pointer : PointerOk wm

structure Inv (wm : WindowManager) : Prop extends Core wm where
  focus : wm.windows.FocusTop wm.focused

theorem PointerOk.sameBut (h : PointerOk wm) (hs : SameBut wm.windows wm'.windows t)
    (hact : wm'.pointerAction = wm.pointerAction) (hwin : wm'.pointerWindow = wm.pointerWindow)
    (hbounds : wm'.pointerStartBounds = wm.pointerStartBounds)
    (ht : wm.pointerAction ≠ .none → wm.pointerWindow ≠ (wm.windows t).id) : PointerOk wm' := by
  intro hne
  rw [hact] at hne
  obtain ⟨i, hi, hid, hfits, hcorner⟩ := h hne
  have hit : i ≠ t := by
    rintro rfl
    exact ht hne hid.symm
  refine ⟨i, by rw [hs.isOpen hit, hi], by rw [hs.id hit, hwin, hid], by rw [hbounds]; exact hfits,
    ?_⟩
  rw [hact, hbounds, hs i hit]
  exact hcorner

theorem PointerOk.none (h : wm.pointerAction = .none) : PointerOk wm := fun hne => absurd h hne

/-- What a step does to the table: entries in use keep their id, a new one is open, a minimised
one keeps its bounds, and the order is kept but for the window that is raised. -/
structure Change (ws ws' : Windows) (target : Option WindowId) : Prop where
  sameId : ∀ i, ws.live i = true → ws'.live i = true → (ws' i).id = (ws i).id
  fresh : ∀ i, ws.live i = false → ws'.live i = true → ws'.isOpen i = true
  kept : ∀ i, (ws i).state = .minimized → (ws' i).state = .minimized →
    (ws' i).restoreBounds = (ws i).restoreBounds
  order : ∀ i j, ws.live i = true → ws.live j = true → ws'.live i = true → ws'.live j = true →
    target ≠ some (ws i).id → target ≠ some (ws j).id → (ws'.z i < ws'.z j ↔ ws.z i < ws.z j)

theorem Change.refl (ws : Windows) (target : Option WindowId) : Change ws ws target :=
  ⟨fun _ _ _ => rfl, fun i h h' => absurd (h.symm.trans h') (by decide), fun _ _ _ => rfl,
    fun _ _ _ _ _ _ _ _ => Iff.rfl⟩

theorem Change.sameBut {ws ws' : Windows} {target : Option WindowId} (hs : SameBut ws ws' t)
    (hid : ws.live t = true → ws'.live t = true → (ws' t).id = (ws t).id)
    (hfresh : ws.live t = false → ws'.live t = true → ws'.isOpen t = true)
    (hkept : (ws t).state = .minimized → (ws' t).state ≠ .minimized)
    (order : ∀ i j, ws.live i = true → ws.live j = true → ws'.live i = true → ws'.live j = true →
      target ≠ some (ws i).id → target ≠ some (ws j).id → (ws'.z i < ws'.z j ↔ ws.z i < ws.z j)) :
    Change ws ws' target := by
  refine ⟨?_, ?_, ?_, order⟩
  · intro i hi hi'
    rcases eq_or_ne i t with rfl | hit
    · exact hid hi hi'
    · exact hs.id hit
  · intro i hi hi'
    rcases eq_or_ne i t with rfl | hit
    · exact hfresh hi hi'
    · rw [hs.live hit, hi] at hi'
      cases hi'
  · intro i hi hi'
    rcases eq_or_ne i t with rfl | hit
    · exact absurd hi' (hkept hi)
    · rw [hs i hit]

theorem Core.edit (h : Core wm) (hs : SameBut wm.windows wm'.windows t)
    (hr : Ranked wm'.windows)
    (hid : wm'.windows.live t = true → (wm'.windows t).id ≠ 0 ∧
      ∀ i, i ≠ t → wm.windows.live i = true → (wm.windows i).id ≠ (wm'.windows t).id)
    (hfits : wm'.windows.live t = true → (wm'.windows t).bounds.Fits)
    (hkept : (wm'.windows t).state = .minimized →
      (wm'.windows t).restoreBounds = (wm'.windows t).bounds)
    (hp : PointerOk wm') : Core wm' := by
  refine ⟨h.ids.sameBut hs hid, hr, ?_, ?_, hp⟩
  · intro i hi
    rcases eq_or_ne i t with rfl | hit
    · exact hfits hi
    · rw [hs.live hit] at hi
      rw [hs i hit]
      exact h.fits i hi
  · intro i hi
    rcases eq_or_ne i t with rfl | hit
    · exact hkept hi
    · rw [hs i hit] at hi ⊢
      exact h.kept i hi

theorem Core.sameId (h : Core wm) (ht : wm.windows.live t = true)
    (hid : (wm'.windows t).id = (wm.windows t).id) :
    (wm'.windows t).id ≠ 0 ∧
      ∀ i, i ≠ t → wm.windows.live i = true → (wm.windows i).id ≠ (wm'.windows t).id := by
  rw [hid]
  exact ⟨h.ids.ne_zero t ht, fun i hit hi heq => hit (h.ids.inj i t hi ht heq)⟩

section focus

theorem Core.raise (h : Core wm) (ht : wm.findMutable id = some t)
    (ho : wm.windows.isOpen t = true) :
    Inv { wm with focused := id, windows := wm.windows.raise id } := by
  obtain ⟨-, hlive, hid⟩ := findMutable_some ht
  have hentry : ∀ i, wm.windows.raised t i =
      { wm.windows i with z := (wm.windows.raised t).z i } := raisedTo_entry _
  rw [h.ranked.raise_eq h.ids ht]
  have hr := h.ranked.raised hlive
  refine ⟨h.edit raised_same hr ?_ ?_ ?_ ?_, ?_⟩
  · exact fun _ => h.sameId hlive (raisedTo_id _)
  · intro _
    simp only [hentry t]
    exact h.fits t hlive
  · simp only [hentry t]
    exact h.kept t
  · intro hne
    obtain ⟨i, hi, hrest⟩ := h.pointer hne
    refine ⟨i, ?_, ?_⟩
    · simp only [Windows.isOpen, hentry i]
      exact hi
    · simp only [hentry i]
      exact hrest
  · refine Or.inl ⟨t, ?_, ?_, ?_⟩
    · simp only [Windows.isOpen, hentry t]
      exact ho
    · intro j hj
      have hlt := hr.lt j (live_of_isOpen hj)
      have hz : (wm.windows.raised t).z t = wm.windows.count - 1 := raisedTo_z_self _
      have hcount : (wm.windows.raised t).count = wm.windows.count := raisedTo_count _
      simp only at hlt ⊢
      omega
    · simp only [hentry t]
      exact hid.symm

theorem Core.raise_change (h : Core wm) (ht : wm.findMutable id = some t)
    (ho : wm.windows.isOpen t = true) :
    Change wm.windows (wm.windows.raise id) (some id) := by
  obtain ⟨-, hlive, hid⟩ := findMutable_some ht
  rw [h.ranked.raise_eq h.ids ht]
  apply Change.sameBut raised_same
  · intro _ _
    exact raisedTo_id _
  · intro hf
    rw [hlive] at hf
    cases hf
  · intro hmin
    simp [Windows.isOpen, hmin] at ho
  · intro i j hi hj _ _ hti htj
    have hit : i ≠ t := by
      rintro rfl
      exact hti (by rw [hid])
    have hjt : j ≠ t := by
      rintro rfl
      exact htj (by rw [hid])
    exact h.ranked.raisedTo_lt_iff _ hlive hit hjt hi hj

theorem Inv.focusStep (h : Inv wm) (id : WindowId) :
    Inv (wm.focus id).2 ∧ Change wm.windows (wm.focus id).2.windows (some id) := by
  rw [WindowManager.focus]
  split
  · exact ⟨h, Change.refl _ _⟩
  · next t ht =>
    split
    · next ho => exact ⟨h.toCore.raise ht ho, h.toCore.raise_change ht ho⟩
    · exact ⟨h, Change.refl _ _⟩

theorem focus_eq (ht : wm.findMutable id = some t) (ho : wm.windows.isOpen t = true) :
    wm.focus id = (true, { wm with focused := id, windows := wm.windows.raise id }) := by
  rw [WindowManager.focus, ht]
  simp only [ho, if_true]

theorem Inv.beginAction (h : Inv wm) (ht : wm.findMutable id = some t)
    (ho : wm.windows.isOpen t = true) (action : PointerAction) (point : Point) :
    Inv (wm.beginAction action t id point) ∧
      Change wm.windows (wm.beginAction action t id point).windows (some id) := by
  obtain ⟨-, hlive, hid⟩ := findMutable_some ht
  obtain ⟨hinv, hchange⟩ := h.focusStep id
  refine ⟨⟨⟨hinv.ids, hinv.ranked, hinv.fits, hinv.kept, ?_⟩, hinv.focus⟩, hchange⟩
  intro _
  have hentry : (wm.focus id).2.windows t =
      { wm.windows t with z := (wm.windows.raised t).z t } := by
    rw [focus_eq ht ho]
    show wm.windows.raise id t = _
    rw [h.ranked.raise_eq h.ids ht]
    exact raisedTo_entry _ t
  have hopen : (wm.focus id).2.windows.isOpen t = true := by
    rw [Windows.isOpen, hentry]
    exact ho
  refine ⟨t, hopen, ?_, hinv.fits t (live_of_isOpen hopen), fun _ => ⟨rfl, rfl⟩⟩
  show ((wm.focus id).2.windows t).id = id
  rw [hentry]
  exact hid

theorem Inv.beginDragStep (h : Inv wm) (id : WindowId) (point : Point) :
    Inv (wm.beginDrag id point).2 ∧
      Change wm.windows (wm.beginDrag id point).2.windows (some id) := by
  rw [beginDrag]
  split
  · exact ⟨h, Change.refl _ _⟩
  · next t ht =>
    split
    · next ho => exact h.beginAction ht ho .drag point
    · exact ⟨h, Change.refl _ _⟩

theorem Inv.beginResizeStep (h : Inv wm) (id : WindowId) (point : Point) :
    Inv (wm.beginResize id point).2 ∧
      Change wm.windows (wm.beginResize id point).2.windows (some id) := by
  rw [beginResize]
  split
  · exact ⟨h, Change.refl _ _⟩
  · next t ht =>
    split
    · next ho =>
      rw [Bool.and_eq_true] at ho
      exact h.beginAction ht ho.1 .resize point
    · exact ⟨h, Change.refl _ _⟩

end focus

section setWindow

variable {w : Window}

theorem setWindow_self : (wm.setWindow t w).windows t = w := Function.update_self ..

theorem setWindow_same : SameBut wm.windows (wm.setWindow t w).windows t := SameBut.update w

theorem setWindow_z (wm : WindowManager) (t : Slot) (hz : w.z = wm.windows.z t) (i : Slot) :
    (wm.setWindow t w).windows.z i = wm.windows.z i := by
  rcases eq_or_ne i t with rfl | hi
  · rw [Windows.z, setWindow_self, hz]
  · show (Function.update wm.windows t w i).z = (wm.windows i).z
    rw [Function.update_of_ne hi]

theorem setWindow_live (h : wm.windows.live t = true)
    (h' : (wm.setWindow t w).windows.live t = true) (i : Slot) :
    (wm.setWindow t w).windows.live i = wm.windows.live i := by
  rcases eq_or_ne i t with rfl | hi
  · rw [h, h']
  · exact setWindow_same.live hi

end setWindow

section pointer

theorem Inv.endPointerAction (h : Inv wm) : Inv wm.endPointerAction :=
  ⟨⟨h.ids, h.ranked, h.fits, h.kept, PointerOk.none rfl⟩, h.focus⟩

theorem Inv.setBounds (h : Inv wm) (ho : wm.windows.isOpen t = true) {bounds : Rect}
    (hfits : bounds.Fits) (hid : (wm.windows t).id = wm.pointerWindow)
    (hstart : wm.pointerAction ≠ .none → wm.pointerStartBounds.Fits)
    (hcorner : wm.pointerAction = .resize →
      bounds.x = wm.pointerStartBounds.x ∧ bounds.y = wm.pointerStartBounds.y) :
    Inv (wm.setWindow t { wm.windows t with bounds := bounds }) ∧
      Change wm.windows (wm.setWindow t { wm.windows t with bounds := bounds }).windows
        Option.none := by
  have hlive := live_of_isOpen ho
  generalize hw : { wm.windows t with bounds := bounds } = w
  have hz := setWindow_z wm t (w := w) (by rw [← hw]; rfl)
  have ho' : (wm.setWindow t w).windows.isOpen t = true := by
    rw [Windows.isOpen, setWindow_self, ← hw]
    exact ho
  refine ⟨⟨h.toCore.edit setWindow_same ?_ ?_ ?_ ?_ ?_, ?_⟩, ?_⟩
  · exact h.ranked.congr (setWindow_live hlive (live_of_isOpen ho')) hz
  · intro _
    apply h.toCore.sameId hlive
    rw [setWindow_self, ← hw]
  · intro _
    rw [setWindow_self, ← hw]
    exact hfits
  · intro hmin
    simp [Windows.isOpen, hmin] at ho'
  · intro hact
    refine ⟨t, ho', ?_, hstart hact, ?_⟩
    · rw [setWindow_self, ← hw]
      exact hid
    · rw [setWindow_self, ← hw]
      exact hcorner
  · rcases h.focus with ⟨m, hm, hmax, hf⟩ | ⟨hnone, hf⟩
    · have hopen : ∀ i, (wm.setWindow t w).windows.isOpen i = wm.windows.isOpen i := by
        intro i
        rcases eq_or_ne i t with rfl | hi
        · rw [ho', ho]
        · exact setWindow_same.isOpen hi
      refine Or.inl ⟨m, (hopen m).trans hm, ?_, ?_⟩
      · intro j hj
        rw [hz, hz]
        exact hmax j ((hopen j).symm.trans hj)
      · rcases eq_or_ne m t with rfl | hmt
        · rw [setWindow_self, ← hw]
          exact hf
        · rw [setWindow_same.id hmt]
          exact hf
    · rw [hnone t] at ho
      cases ho
  · apply Change.sameBut setWindow_same
    · intro _ _
      rw [setWindow_self, ← hw]
    · intro _ _
      exact ho'
    · intro hmin
      simp [Windows.isOpen, hmin] at ho
    · intro i j _ _ _ _ _ _
      rw [hz, hz]

theorem Inv.pointerMoveStep (h : Inv wm) (point : Point) :
    Inv (wm.pointerMove point) ∧ Change wm.windows (wm.pointerMove point).windows Option.none := by
  rw [pointerMove]
  split
  · exact ⟨h.endPointerAction, Change.refl _ _⟩
  · next t ht =>
    obtain ⟨-, hlive, hid⟩ := findMutable_some ht
    split
    · next ho =>
      split
      · exact ⟨h, Change.refl _ _⟩
      · next hact =>
        obtain ⟨i, hi, hidi, hfits, -⟩ := h.pointer (by rw [hact]; decide)
        apply h.setBounds ho (draggedBounds_fits hfits _ _) hid (fun _ => hfits)
        rw [hact]
        intro hres
        cases hres
      · next hact =>
        obtain ⟨i, hi, hidi, hfits, hcorner⟩ := h.pointer (by rw [hact]; decide)
        obtain rfl : i = t := h.ids.inj i t (live_of_isOpen hi) hlive (hidi.trans hid.symm)
        obtain ⟨hx, hy⟩ := hcorner hact
        exact h.setBounds ho (resizedBounds_fits hfits hx hy _ _) hid (fun _ => hfits)
          fun _ => ⟨hx, hy⟩
    · exact ⟨h.endPointerAction, Change.refl _ _⟩

end pointer

section lifecycle

theorem releasePointer_windows (wm : WindowManager) (id : WindowId) :
    (wm.releasePointer id).windows = wm.windows := by
  rw [releasePointer]
  split <;> rfl

theorem releasePointer_focused (wm : WindowManager) (id : WindowId) :
    (wm.releasePointer id).focused = wm.focused := by
  rw [releasePointer]
  split <;> rfl

theorem PointerOk.release (h : PointerOk wm) (hid : (wm.windows t).id = id) {w : Window} :
    PointerOk ((wm.setWindow t w).releasePointer id) := by
  -- once the pointer has been released from the window of entry `t`, the action left is on another one
  rw [releasePointer]
  split
  · exact PointerOk.none rfl
  · next hne =>
    have hmove : wm.pointerAction ≠ .none → wm.pointerWindow ≠ (wm.windows t).id := by
      intro _
      rw [hid]
      exact hne
    exact h.sameBut setWindow_same rfl rfl rfl hmove

theorem Inv.minimizeCore (h : Inv wm) (ht : wm.findMutable id = some t) {w : Window}
    (hw : w = { wm.windows t with restoreBounds := (wm.windows t).bounds, state := .minimized }) :
    Core ((wm.setWindow t w).releasePointer id) := by
  obtain ⟨-, hlive, hid⟩ := findMutable_some ht
  have hs : SameBut wm.windows ((wm.setWindow t w).releasePointer id).windows t := by
    rw [releasePointer_windows]
    exact setWindow_same
  have hself : ((wm.setWindow t w).releasePointer id).windows t = w := by
    rw [releasePointer_windows, setWindow_self]
  have hlive' : (wm.setWindow t w).windows.live t = true := by
    rw [Windows.live, setWindow_self, hw]
    rfl
  apply h.toCore.edit hs
  · rw [releasePointer_windows]
    apply h.ranked.congr (setWindow_live hlive hlive')
    exact setWindow_z wm t (by rw [hw]; rfl)
  · intro _
    apply h.toCore.sameId hlive
    rw [hself, hw]
  · intro _
    rw [hself, hw]
    exact h.fits t hlive
  · intro _
    rw [hself, hw]
  · exact h.pointer.release hid

theorem Inv.minimizeStep (h : Inv wm) (id : WindowId) :
    Inv (wm.minimize id).2 ∧ Change wm.windows (wm.minimize id).2.windows Option.none := by
  rw [minimize]
  split
  · exact ⟨h, Change.refl _ _⟩
  · next t ht =>
    obtain ⟨-, hlive, hid⟩ := findMutable_some ht
    split
    · next ho =>
      dsimp only
      generalize hw : { wm.windows t with
        restoreBounds := (wm.windows t).bounds, state := WindowState.minimized } = w
      have hcore := h.minimizeCore ht hw.symm
      have hclosed : (wm.setWindow t w).windows.isOpen t = false := by
        rw [Windows.isOpen, setWindow_self, ← hw]
        rfl
      have hz := setWindow_z wm t (w := w) (by rw [← hw]; rfl)
      have hchange : Change wm.windows (wm.setWindow t w).windows Option.none := by
        apply Change.sameBut setWindow_same
        · intro _ _
          rw [setWindow_self, ← hw]
        · intro hf
          rw [hlive] at hf
          cases hf
        · intro hmin
          simp [Windows.isOpen, hmin] at ho
        · intro i j _ _ _ _ _ _
          rw [hz, hz]
      split
      · refine ⟨⟨⟨hcore.ids, hcore.ranked, hcore.fits, hcore.kept, hcore.pointer⟩,
          highestOpenWindow_top _⟩, ?_⟩
        show Change wm.windows ((wm.setWindow t w).releasePointer id).windows Option.none
        rw [releasePointer_windows]
        exact hchange
      · next hfocus =>
        rw [releasePointer_focused] at hfocus
        refine ⟨⟨hcore, ?_⟩, ?_⟩
        · rw [releasePointer_windows, releasePointer_focused]
          apply h.focus.sameBut setWindow_same (hid ▸ hfocus) hclosed
          intro i j _ _ _ _ hle
          rw [hz, hz]
          exact hle
        · rw [releasePointer_windows]
          exact hchange
    · exact ⟨h, Change.refl _ _⟩

theorem Inv.restoreCore (h : Inv wm) (ht : wm.windows.live t = true)
    (hm : (wm.windows t).state = .minimized) {w : Window}
    (hw : w = { wm.windows t with bounds := (wm.windows t).restoreBounds, state := .opened }) :
    Core (wm.setWindow t w) := by
  have hlive' : (wm.setWindow t w).windows.live t = true := by
    rw [Windows.live, setWindow_self, hw]
    rfl
  apply h.toCore.edit setWindow_same
  · apply h.ranked.congr (setWindow_live ht hlive')
    exact setWindow_z wm t (by rw [hw]; rfl)
  · intro _
    apply h.toCore.sameId ht
    rw [setWindow_self, hw]
  · intro _
    rw [setWindow_self, hw]
    show (wm.windows t).restoreBounds.Fits
    rw [h.kept t hm]
    exact h.fits t ht
  · intro hmin
    rw [setWindow_self, hw] at hmin
    cases hmin
  · apply h.pointer.sameBut (t := t) setWindow_same rfl rfl rfl
    intro hact heq
    obtain ⟨i, hi, hidi, -⟩ := h.pointer hact
    obtain rfl : i = t := h.ids.inj i t (live_of_isOpen hi) ht (hidi.trans heq)
    simp [Windows.isOpen, hm] at hi

theorem Inv.restore_eq (h : Inv wm) (ht : wm.findMutable id = some t)
    (hm : (wm.windows t).state = .minimized) :
    ∃ w, w = { wm.windows t with bounds := (wm.windows t).restoreBounds, state := .opened } ∧
      wm.restore id = (true, { wm.setWindow t w with
        focused := id, windows := (wm.setWindow t w).windows.raise id }) ∧
      (wm.setWindow t w).findMutable id = some t ∧
      (wm.setWindow t w).windows.isOpen t = true := by
  obtain ⟨-, hlive, hid⟩ := findMutable_some ht
  refine ⟨_, rfl, ?_⟩
  generalize hw : { wm.windows t with
    bounds := (wm.windows t).restoreBounds, state := WindowState.opened } = w
  have hcore := h.restoreCore hlive hm hw.symm
  have ho : (wm.setWindow t w).windows.isOpen t = true := by
    rw [Windows.isOpen, setWindow_self, ← hw]
    rfl
  have hfind : (wm.setWindow t w).findMutable id = some t := by
    have := hcore.ids.findMutable (live_of_isOpen ho)
    rw [setWindow_self, ← hw] at this
    rw [← hid, ← hw]
    exact this
  refine ⟨?_, hfind, ho⟩
  rw [restore, ht]
  simp only [hm, if_true, hw]
  exact focus_eq hfind ho

theorem Inv.restoreStep (h : Inv wm) (id : WindowId) :
    Inv (wm.restore id).2 ∧ Change wm.windows (wm.restore id).2.windows (some id) := by
  cases ht : wm.findMutable id with
  | none =>
    simp only [restore, ht]
    exact ⟨h, Change.refl _ _⟩
  | some t =>
    obtain ⟨-, hlive, hid⟩ := findMutable_some ht
    by_cases hm : (wm.windows t).state = .minimized
    · obtain ⟨w, hw, heq, hfind, ho⟩ := h.restore_eq ht hm
      have hcore := h.restoreCore hlive hm hw
      rw [heq]
      refine ⟨hcore.raise hfind ho, ?_⟩
      have hz := setWindow_z wm t (w := w) (by rw [hw]; rfl)
      have hlive' := setWindow_live hlive (live_of_isOpen ho)
      have hraise := hcore.raise_change hfind ho
      show Change wm.windows ((wm.setWindow t w).windows.raise id) (some id)
      rw [hcore.ranked.raise_eq hcore.ids hfind] at hraise ⊢
      have hopen : ((wm.setWindow t w).windows.raised t t).state = .opened := by
        rw [Windows.raised, raisedTo_entry, setWindow_self, hw]
      apply Change.sameBut (setWindow_same.trans raised_same)
      · intro _ _
        rw [Windows.raised, raisedTo_id, setWindow_self, hw]
      · intro _ _
        rw [Windows.isOpen, hopen]
        rfl
      · intro _
        rw [hopen]
        decide
      · intro i j hi hj hi' hj' hti htj
        rw [← hz i, ← hz j]
        have hids : ∀ i, ((wm.setWindow t w).windows i).id = (wm.windows i).id := by
          intro i
          rcases eq_or_ne i t with rfl | hit
          · rw [setWindow_self, hw]
          · exact setWindow_same.id hit
        apply hraise.order i j ((hlive' i).trans hi) ((hlive' j).trans hj) hi' hj'
        · rw [hids]
          exact hti
        · rw [hids]
          exact htj
    · simp only [restore, ht, if_neg hm]
      exact ⟨h, Change.refl _ _⟩

def closedWindow (wm : WindowManager) (t : Slot) (id : WindowId) : WindowManager :=
  let wm := (wm.setWindow t { wm.windows t with state := .closed, id := 0 }).releasePointer id
  { wm with windows := wm.windows.compactZ }

section closedWindow

variable (h : Inv wm) (ht : wm.findMutable id = some t)
include h ht

theorem Inv.closedWindow_windows : (wm.closedWindow t id).windows =
    (wm.setWindow t { wm.windows t with state := .closed, id := 0 }).windows.closeGap
      (wm.windows.z t) := by
  obtain ⟨-, hlive, -⟩ := findMutable_some ht
  simp only [closedWindow, releasePointer_windows]
  apply Gapped.compactZ
  apply h.ranked.gapped hlive setWindow_same
  · rw [Windows.live, setWindow_self]
    rfl
  · exact setWindow_z wm t rfl

theorem Inv.closedWindow_same : SameBut wm.windows (wm.closedWindow t id).windows t := by
  rw [h.closedWindow_windows ht]
  exact setWindow_same.trans (closeGap_same _)

theorem Inv.closedWindow_self : ((wm.closedWindow t id).windows t).state = .closed := by
  rw [h.closedWindow_windows ht, closeGap_entry, setWindow_self]

theorem Inv.closedWindow_lt_iff (hi : i ≠ t) (hj : j ≠ t) (hil : wm.windows.live i = true)
    (hjl : wm.windows.live j = true) :
    (wm.closedWindow t id).windows.z i < (wm.closedWindow t id).windows.z j ↔
      wm.windows.z i < wm.windows.z j := by
  obtain ⟨-, hlive, -⟩ := findMutable_some ht
  have hz := setWindow_z wm t (w := { wm.windows t with state := .closed, id := 0 }) rfl
  have hgap : Gapped (wm.setWindow t { wm.windows t with state := .closed, id := 0 }).windows
      (wm.windows.z t) :=
    h.ranked.gapped hlive setWindow_same (by rw [Windows.live, setWindow_self]; rfl) hz
  rw [h.closedWindow_windows ht, hgap.closeGap_lt_iff, hz, hz]
  · rw [setWindow_same.live hi, hil]
  · rw [setWindow_same.live hj, hjl]

theorem Inv.closedWindow_core : Core (wm.closedWindow t id) := by
  obtain ⟨-, hlive, hid⟩ := findMutable_some ht
  have hnot : ¬ (wm.closedWindow t id).windows.live t = true := by
    simp [Windows.live, h.closedWindow_self ht]
  apply h.toCore.edit (h.closedWindow_same ht)
  · rw [h.closedWindow_windows ht]
    apply h.ranked.close hlive setWindow_same
    · rw [Windows.live, setWindow_self]
      rfl
    · exact setWindow_z wm t rfl
  · exact fun hl => absurd hl hnot
  · exact fun hl => absurd hl hnot
  · intro hmin
    rw [h.closedWindow_self ht] at hmin
    cases hmin
  · rw [closedWindow, releasePointer]
    split
    · exact PointerOk.none rfl
    · next hne =>
      have hs := h.closedWindow_same ht
      rw [closedWindow, releasePointer, if_neg hne] at hs
      apply h.pointer.sameBut hs rfl rfl rfl
      intro _
      rw [hid]
      exact hne

end closedWindow

theorem Inv.closeStep (h : Inv wm) (id : WindowId) :
    Inv (wm.close id).2 ∧ Change wm.windows (wm.close id).2.windows Option.none := by
  cases ht : wm.findMutable id with
  | none =>
    simp only [close, ht]
    exact ⟨h, Change.refl _ _⟩
  | some t =>
    obtain ⟨-, hlive, hid⟩ := findMutable_some ht
    cases hc : (wm.windows t).closable with
    | false =>
      simp only [close, ht, hc]
      exact ⟨h, Change.refl _ _⟩
    | true =>
      have hcore := h.closedWindow_core ht
      have hself := h.closedWindow_self ht
      have hnot : (wm.closedWindow t id).windows.live t = false := by
        simp [Windows.live, hself]
      have hchange : Change wm.windows (wm.closedWindow t id).windows Option.none := by
        apply Change.sameBut (h.closedWindow_same ht)
        · intro _ hl
          rw [hnot] at hl
          cases hl
        · intro _ hl
          rw [hnot] at hl
          cases hl
        · intro _
          rw [hself]
          decide
        · intro i j hi hj hi' hj' _ _
          have hit : i ≠ t := by
            rintro rfl
            rw [hnot] at hi'
            cases hi'
          have hjt : j ≠ t := by
            rintro rfl
            rw [hnot] at hj'
            cases hj'
          exact h.closedWindow_lt_iff ht hit hjt hi hj
      have hclose : (wm.close id).2 = if wm.focused = id then { wm.closedWindow t id with
          focused := (wm.closedWindow t id).windows.highestOpenWindow }
          else wm.closedWindow t id := by
        simp only [close, ht, hc, if_true, decide_eq_true_eq, closedWindow]
        split <;> rfl
      rw [hclose]
      split
      · exact ⟨⟨⟨hcore.ids, hcore.ranked, hcore.fits, hcore.kept, hcore.pointer⟩,
          highestOpenWindow_top _⟩, hchange⟩
      · next hfocus =>
        refine ⟨⟨hcore, ?_⟩, hchange⟩
        have hf : (wm.closedWindow t id).focused = wm.focused := by
          simp only [closedWindow, releasePointer_focused]
          rfl
        rw [hf]
        apply h.focus.sameBut (h.closedWindow_same ht) (hid ▸ hfocus)
        · simp [Windows.isOpen, hself]
        · intro i j hi hj hio hjo hle
          have := h.closedWindow_lt_iff ht hj hi (live_of_isOpen hjo) (live_of_isOpen hio)
          omega

theorem Inv.addCore (h : Inv wm) (hid : id ≠ 0) (hfind : wm.findMutable id = Option.none)
    (ht : wm.windows.live t = false) {w : Window} (hwid : w.id = id) (hwo : w.state = .opened)
    (hwz : w.z = wm.windows.count) (hwf : w.bounds.Fits) : Core (wm.setWindow t w) := by
  have hlive' : (wm.setWindow t w).windows.live t = true := by
    rw [Windows.live, setWindow_self, hwo]
    rfl
  apply h.toCore.edit setWindow_same
  · apply h.ranked.push ht setWindow_same hlive'
    · rw [Windows.z, setWindow_self, hwz]
    · intro i hi
      show (Function.update wm.windows t w i).z = _
      rw [Function.update_of_ne hi]
      rfl
  · intro _
    rw [setWindow_self, hwid]
    exact ⟨hid, fun i _ hi => findMutable_none hid hfind hi⟩
  · intro _
    rw [setWindow_self]
    exact hwf
  · intro hmin
    rw [setWindow_self, hwo] at hmin
    cases hmin
  · intro hact
    -- the window under the pointer is in use, so it is not in the free entry
    obtain ⟨i, hi, hrest⟩ := h.pointer hact
    have hit : i ≠ t := by
      rintro rfl
      rw [live_of_isOpen hi] at ht
      cases ht
    refine ⟨i, by rw [setWindow_same.isOpen hit, hi], ?_⟩
    rw [setWindow_same i hit]
    exact hrest

theorem Inv.addWindowStep (h : Inv wm) (id : WindowId) (bounds : Rect) (resizable closable : Bool) :
    Inv (wm.addWindow id bounds resizable closable).2 ∧
      Change wm.windows (wm.addWindow id bounds resizable closable).2.windows (some id) := by
  rw [addWindow]
  split
  · exact ⟨h, Change.refl _ _⟩
  · next hguard =>
    rw [not_or, find, Option.isSome_map] at hguard
    obtain ⟨hid, hfind⟩ := hguard
    rw [Option.not_isSome_iff_eq_none] at hfind
    dsimp only
    split
    · exact ⟨h, Change.refl _ _⟩
    · next t ht =>
      have hfree : wm.windows.live t = false := by
        simpa using List.find?_some ht
      split
      · exact ⟨h, Change.refl _ _⟩
      · next hroom =>
        generalize hw : Window.mk id (clampBounds bounds) (clampBounds bounds) .opened
          ((slots.filter wm.windows.live).length % 2 ^ 8) resizable closable = w
        have hwz : w.z = wm.windows.count := by
          have := count_le wm.windows
          have h8 : maxWindows = 8 := rfl
          rw [← hw]
          exact Nat.mod_eq_of_lt (by rw [← Windows.count]; omega)
        have hcore := h.addCore hid hfind hfree (by rw [← hw]) (by rw [← hw]) hwz
          (by rw [← hw]; exact clampBounds_fits bounds)
        have ho : (wm.setWindow t w).windows.isOpen t = true := by
          rw [Windows.isOpen, setWindow_self, ← hw]
          rfl
        have hf : (wm.setWindow t w).findMutable id = some t := by
          have := hcore.ids.findMutable (live_of_isOpen ho)
          rw [setWindow_self, ← hw] at this
          rw [← hw]
          exact this
        refine ⟨hcore.raise hf ho, ?_⟩
        have hraise := hcore.raise_change hf ho
        show Change wm.windows ((wm.setWindow t w).windows.raise id) (some id)
        rw [hcore.ranked.raise_eq hcore.ids hf] at hraise ⊢
        have hopen : ((wm.setWindow t w).windows.raised t t).state = .opened := by
          rw [Windows.raised, raisedTo_entry, setWindow_self, ← hw]
        apply Change.sameBut (setWindow_same.trans raised_same)
        · intro hl
          rw [hfree] at hl
          cases hl
        · intro _ _
          rw [Windows.isOpen, hopen]
          rfl
        · intro _
          rw [hopen]
          decide
        · intro i j hi hj hi' hj' hti htj
          have hne : ∀ i, wm.windows.live i = true → i ≠ t := by
            rintro i hi rfl
            rw [hfree] at hi
            cases hi
          have hsame : SameBut wm.windows (wm.setWindow t w).windows t := setWindow_same
          rw [hraise.order i j]
          · show (Function.update wm.windows t w i).z < (Function.update wm.windows t w j).z ↔ _
            rw [Function.update_of_ne (hne i hi), Function.update_of_ne (hne j hj)]
            rfl
          · rw [hsame.live (hne i hi), hi]
          · rw [hsame.live (hne j hj), hj]
          · exact hi'
          · exact hj'
          · rw [hsame.id (hne i hi)]
            exact hti
          · rw [hsame.id (hne j hj)]
            exact htj

end lifecycle

end WindowManager

end Linux95.Gui
