import Linux95.Gui.Redraw

/-! Which part of the desktop a redraw paints at a pixel, from the places of the windows, their order, the menu and
the dirty rectangle; the redraw restores the screen where this is the part that belongs there. -/

namespace Linux95.Gui
open Base Base.Drawing

/-- What may be painted over the background: the open menu, a text or a button of the panel, the content of an
application, and the frame of a window, which lies under the content. -/
inductive Part where
  | menu
  | controls
  | content (i : Slot)
  | frame (i : Slot)
  deriving DecidableEq, Repr

def Part.fixed : Part → Bool
  | .content _ => false
  | _ => true

/-- The pixels of a window that belong to its application: the content without the border. -/
def interior (bounds : Rect) : Rect :=
  ⟨bounds.x + 1, bounds.y + titleBarHeight, bounds.width - 2, bounds.height - titleBarHeight - 1⟩

def runsApp (id : WindowId) : Bool :=
  id = terminalWindowId || id = systemInfoWindowId || id = fileManagerWindowId

namespace RuntimeState

section Parts
variable (state : RuntimeState)

/-- The part at the point of a window that is painted for the clipped rectangle: the application is asked to draw
only if its content rectangle meets that rectangle too. -/
def windowPart (clipped : Rect) (p : Point) (i : Slot) : Part :=
  let window := state.windows.windows i
  if runsApp window.id && contains (interior window.bounds) p && intersects (contentRect window.bounds) clipped then
    .content i
  else .frame i

/-- The uppermost part that a redraw of `rect` paints at the pixel, inside `rect` or not. -/
def partAt (rect : Rect) (p : Pixel) : Option Part :=
  let clipped := clipToScreen rect
  if state.menuOpen && contains menuBounds p.1 && intersects menuBounds clipped then some .menu
  else if intersects panel clipped && (drawControls state p).isSome then some .controls
  else
    ((state.windows.openWindowsInZOrder maxWindows).reverse.find? fun i =>
      contains (state.windows.windows i).bounds p.1 && intersects (state.windows.windows i).bounds clipped).map
        (windowPart state clipped p.1)

def Touches (rect : Rect) (p : Pixel) : Prop := p ∈ repainted rect ∨ partAt state rect p ≠ none

def paintPart (p : Pixel) : Part → Option UInt32
  | .menu => drawMenu state p
  | .controls => drawControls state p
  | .content i => (drawContent state (state.windows.windows i) p).or (drawChrome state (state.windows.windows i) p)
  | .frame i =>
    (drawRect state.format (state.windows.windows i).bounds black p).or
      (drawChrome state (state.windows.windows i) p)

/-- One part, or two parts without an application that have one colour at the pixel. -/
def Alike (p : Pixel) (a b : Part) : Prop :=
  a = b ∨ a.fixed = true ∧ b.fixed = true ∧ paintPart state p a = paintPart state p b

/-- A rectangle with an edge beyond `int32_t` is repainted by the others, and a part that is painted outside of
its rectangle is the one that the screen shows there, or a later rectangle repaints the pixel. -/
structure Restorable (dirty : List Rect) : Prop where
  edges : ∀ rect ∈ dirty, ¬ rect.FitsInt32 → ∀ p ∈ inRect rect, ∃ other ∈ dirty, Touches state other p
  parts : ∀ p before rect after painted, dirty = before ++ rect :: after → p ∉ repainted rect →
    partAt state rect p = some painted →
    (∃ shown, partAt state screen p = some shown ∧ Alike state p painted shown) ∨
      ∃ later ∈ after, Touches state later p

end Parts

section Windows
variable {state : RuntimeState} {p : Pixel}

theorem drawChrome_paints {window : Window} (hfits : window.bounds.Fits) (hp : p ∈ inRect window.bounds) :
    drawChrome state window p ≠ none := by
  obtain ⟨titleBar, heq, -⟩ := drawChrome_eq state hfits
  have hin : contains window.bounds p.1 = true := hp
  rw [heq, seq_apply, fillRect_eq, if_pos hin]
  cases titleBar p <;> exact Option.some_ne_none _

theorem drawContent_apply (window : Window) (meets : Bool) :
    (if meets = true then drawContent state window else nothing) p =
      if runsApp window.id && meets then drawContent state window p else none := by
  cases meets with
  | false =>
    rw [Bool.and_false]
    rfl
  | true =>
    rw [Bool.and_true, if_pos rfl]
    split_ifs with hid
    · rfl
    · unfold runsApp at hid
      simp only [Bool.or_eq_true, decide_eq_true_eq, not_or] at hid
      unfold drawContent appFor
      rw [if_neg hid.1.1, if_neg hid.1.2, if_neg hid.2]
      rfl

theorem border_cases (state : RuntimeState) {window : Window} (hfits : window.bounds.Fits) (hp : p ∈ inRect window.bounds) :
    p ∈ inRect (interior window.bounds) ∧ drawRect state.format window.bounds black p = none ∨
      p ∉ inRect (interior window.bounds) ∧
        (p ∉ inRect (contentRect window.bounds) ∨
          drawRect state.format window.bounds black p = some (packColor state.format black)) := by
  -- the border of a window lies around its interior and covers the content there
  have hheight := hfits.height
  unfold minHeight at hheight
  by_cases hinterior : p ∈ inRect (interior window.bounds)
  · refine Or.inl ⟨hinterior, ?_⟩
    by_contra hdraws
    obtain ⟨-, hedge⟩ := drawRect_within window.bounds p hdraws
    rw [mem_inRect] at hinterior
    unfold interior titleBarHeight at hinterior
    dsimp only at hinterior
    omega
  · refine Or.inr ⟨hinterior, ?_⟩
    by_cases hcontent : p ∈ inRect (contentRect window.bounds)
    · refine Or.inr (drawRect_edge ⟨hp, ?_⟩)
      rw [mem_inRect] at hinterior hcontent
      unfold interior titleBarHeight at hinterior
      unfold contentRect titleBarHeight at hcontent
      dsimp only at hinterior hcontent
      omega
    · exact Or.inl hcontent

theorem paintPart_windowPart (clipped : Rect) (i : Slot) :
    paintPart state p (windowPart state clipped p.1 i) =
      if runsApp (state.windows.windows i).id && contains (interior (state.windows.windows i).bounds) p.1 &&
          intersects (contentRect (state.windows.windows i).bounds) clipped then
        (drawContent state (state.windows.windows i) p).or (drawChrome state (state.windows.windows i) p)
      else
        (drawRect state.format (state.windows.windows i).bounds black p).or
          (drawChrome state (state.windows.windows i) p) := by
  unfold windowPart
  dsimp only
  split_ifs <;> rfl

theorem top_windowLayers {i : Slot} (hopen : (state.windows.windows i).state = .opened)
    (hfits : (state.windows.windows i).bounds.Fits) (rect : Rect) :
    top (layersOn (windowLayers state (state.windows.windows i)) (repainted rect)) p =
      if contains (state.windows.windows i).bounds p.1 &&
          intersects (state.windows.windows i).bounds (clipToScreen rect) then
        paintPart state p (windowPart state (clipToScreen rect) p.1 i)
      else none := by
  rw [← drawWindow_eq hopen, paintPart_windowPart]
  generalize state.windows.windows i = window at *
  unfold drawWindow
  rw [if_neg (by simpa using hopen)]
  by_cases hmeet : intersects window.bounds (clipToScreen rect) = true
  swap
  · rw [if_pos (by simpa using hmeet), if_neg (by simp [hmeet])]
    rfl
  rw [hmeet, Bool.and_true, if_neg (by decide), seqAll_cons, seqAll_cons, seqAll_cons, drawContent_apply]
  generalize hasked : intersects (contentRect window.bounds) (clipToScreen rect) = asked
  have hnone : ∀ a : Option UInt32, (seqAll [] p : Option UInt32).or a = a := fun a => rfl
  rw [hnone]
  by_cases hp : contains window.bounds p.1 = true
  · rw [if_pos hp]
    rcases border_cases state hfits hp with ⟨hinterior, hborder⟩ | ⟨hinterior, hborder⟩
    · have hinterior : contains (interior window.bounds) p.1 = true := hinterior
      rw [hinterior, hborder, Bool.and_true, Option.none_or]
      split_ifs <;> rfl
    · have hinterior : contains (interior window.bounds) p.1 = false := Bool.eq_false_iff.mpr hinterior
      rw [hinterior, Bool.and_false, Bool.false_and]
      rcases hborder with hcontent | hborder
      · have hblank : drawContent state window p = none := by
          by_contra hdraws
          exact hcontent (drawContent_within p hdraws)
        rw [hblank, ite_self, Option.or_none]
        rfl
      · rw [hborder]
        rfl
  · rw [if_neg hp]
    have hout : p ∉ inRect window.bounds := hp
    have hborder : drawRect state.format window.bounds black p = none := by
      by_contra hdraws
      exact hout (drawRect_within_rect subset_rfl p hdraws)
    have hchrome : drawChrome state window p = none := by
      by_contra hdraws
      exact hout (drawChrome_within hfits p hdraws)
    have hblank : drawContent state window p = none := by
      by_contra hdraws
      have hcontent := drawContent_within p hdraws
      rw [mem_inRect] at hout hcontent
      unfold contentRect titleBarHeight at hcontent
      dsimp only at hcontent
      omega
    rw [hborder, hchrome, hblank, ite_self]
    rfl

theorem paintPart_window {i : Slot} (hfits : (state.windows.windows i).bounds.Fits) (clipped : Rect)
    (hp : contains (state.windows.windows i).bounds p.1 = true) :
    paintPart state p (windowPart state clipped p.1 i) ≠ none := by
  have hchrome : drawChrome state (state.windows.windows i) p ≠ none := drawChrome_paints hfits hp
  rw [paintPart_windowPart]
  split_ifs
  · exact fun hnone => hchrome (Option.or_eq_none_iff.mp hnone).2
  · exact fun hnone => hchrome (Option.or_eq_none_iff.mp hnone).2

theorem top_windows (rect : Rect) (order : List Slot)
    (hplaced : ∀ i ∈ order, (state.windows.windows i).state = .opened ∧ (state.windows.windows i).bounds.Fits) :
    top (layersOn (order.flatMap fun i => windowLayers state (state.windows.windows i)) (repainted rect)) p =
      ((order.reverse.find? fun i => contains (state.windows.windows i).bounds p.1 &&
          intersects (state.windows.windows i).bounds (clipToScreen rect)).map
        (windowPart state (clipToScreen rect) p.1)).bind (paintPart state p) := by
  induction order with
  | nil => rfl
  | cons i order ih =>
    obtain ⟨hopen, hfits⟩ := hplaced i List.mem_cons_self
    have hplaced : ∀ j ∈ order, (state.windows.windows j).state = .opened ∧ (state.windows.windows j).bounds.Fits :=
      fun j hj => hplaced j (List.mem_cons_of_mem i hj)
    rw [List.flatMap_cons, top_layersOn_append, ih hplaced, top_windowLayers hopen hfits, List.reverse_cons,
      List.find?_append, List.find?_singleton]
    cases hfound : order.reverse.find? fun i => contains (state.windows.windows i).bounds p.1 &&
        intersects (state.windows.windows i).bounds (clipToScreen rect) with
    | none =>
      rw [Option.none_or]
      split_ifs <;> rfl
    | some j =>
      have hj := hplaced j (List.mem_reverse.mp (List.mem_of_find?_eq_some hfound))
      have hpainted := List.find?_some hfound
      rw [Bool.and_eq_true] at hpainted
      obtain ⟨color, hcolor⟩ := Option.ne_none_iff_exists'.mp (paintPart_window hj.2 (clipToScreen rect) hpainted.1)
      rw [Option.some_or, Option.map_some, Option.bind_some, hcolor, Option.some_or]

end Windows

section Whole
variable {state : RuntimeState} {rect : Rect} {p : Pixel}

theorem drawMenu_paints (state : RuntimeState) (hp : contains menuBounds p.1 = true) : drawMenu state p ≠ none := by
  unfold drawMenu
  rw [seqAll_cons, fillRect_eq, if_pos hp]
  exact fun hnone => Option.some_ne_none _ (Option.or_eq_none_iff.mp hnone).2

theorem top_partAt (hplaced : Placed state) (rect : Rect) (p : Pixel) :
    top (layersOn (layers state) (repainted rect)) p = (partAt state rect p).bind (paintPart state p) := by
  unfold layers partAt
  rw [top_layersOn_append, top_windows rect _ hplaced, ← drawPanel_eq]
  dsimp only
  unfold drawPanel
  rw [seq_apply]
  have hmenu : (if state.menuOpen && intersects menuBounds (clipToScreen rect) then drawMenu state else nothing) p =
      if state.menuOpen && contains menuBounds p.1 && intersects menuBounds (clipToScreen rect) then drawMenu state p
      else none := by
    rw [Bool.and_right_comm]
    by_cases hin : contains menuBounds p.1 = true
    · rw [hin, Bool.and_true]
      split_ifs <;> rfl
    · have hblank : drawMenu state p = none := by
        by_contra hdraws
        exact hin (drawMenu_within p hdraws)
      rw [hblank, ite_self]
      split_ifs
      · exact hblank
      · rfl
  have hcontrols : (if intersects panel (clipToScreen rect) then drawControls state else nothing) p =
      if intersects panel (clipToScreen rect) && (drawControls state p).isSome then drawControls state p else none := by
    cases hblank : drawControls state p with
    | none =>
      rw [ite_self]
      split_ifs
      · exact hblank
      · rfl
    | some color =>
      rw [Option.isSome_some, Bool.and_true, ← hblank]
      split_ifs <;> rfl
  rw [hmenu, hcontrols]
  split_ifs with hpainted hshown hshown
  · obtain ⟨color, hcolor⟩ := Option.ne_none_iff_exists'.mp
      (drawMenu_paints state (by simp only [Bool.and_eq_true] at hpainted; exact hpainted.1.2))
    rw [Option.bind_some, paintPart, hcolor, Option.some_or, Option.some_or]
  · obtain ⟨color, hcolor⟩ := Option.ne_none_iff_exists'.mp
      (drawMenu_paints state (by simp only [Bool.and_eq_true] at hpainted; exact hpainted.1.2))
    rw [Option.bind_some, paintPart, hcolor, Option.some_or, Option.some_or]
  · rw [Bool.and_eq_true] at hshown
    obtain ⟨color, hcolor⟩ := Option.isSome_iff_exists.mp hshown.2
    rw [Option.bind_some, paintPart, hcolor, Option.none_or, Option.some_or]
  · rfl

theorem partAt_paints (hplaced : Placed state) {part : Part} (hpart : partAt state rect p = some part) :
    paintPart state p part ≠ none := by
  unfold partAt at hpart
  dsimp only at hpart
  split_ifs at hpart with hmenu hcontrols
  · obtain rfl := Option.some.inj hpart
    simp only [Bool.and_eq_true] at hmenu
    exact drawMenu_paints state hmenu.1.2
  · obtain rfl := Option.some.inj hpart
    rw [Bool.and_eq_true] at hcontrols
    exact Option.isSome_iff_ne_none.mp hcontrols.2
  · obtain ⟨i, hfound, rfl⟩ := Option.map_eq_some_iff.mp hpart
    have hin := List.find?_some hfound
    rw [Bool.and_eq_true] at hin
    exact paintPart_window (hplaced i (List.mem_reverse.mp (List.mem_of_find?_eq_some hfound))).2 _ hin.1

theorem touches_iff (hplaced : Placed state) :
    Touches state rect p ↔ Reaches (layers state) (repainted rect) p := by
  have hpaints : partAt state rect p ≠ none ↔ top (layersOn (layers state) (repainted rect)) p ≠ none := by
    rw [top_partAt hplaced]
    cases hpart : partAt state rect p with
    | none => exact iff_of_false (fun hne => hne rfl) fun hne => hne rfl
    | some part =>
      rw [Option.bind_some]
      exact iff_of_true (Option.some_ne_none part) (partAt_paints hplaced hpart)
  exact or_congr_right hpaints

theorem top_partAt_screen (hplaced : Placed state) (p : Pixel) :
    top (layers state) p = (partAt state screen p).bind (paintPart state p) := by
  rw [← top_partAt hplaced, top_layersOn_of_mem (layers_confined hplaced) (mem_repainted_screen p)]

theorem partAt_screen (hplaced : Placed state) {painted : Part} (hpainted : partAt state rect p = some painted) :
    ∃ shown, partAt state screen p = some shown := by
  obtain ⟨color, hcolor⟩ := Option.ne_none_iff_exists'.mp (partAt_paints hplaced hpainted)
  have htop : top (layersOn (layers state) (repainted rect)) p = some color := by
    rw [top_partAt hplaced, hpainted, Option.bind_some, hcolor]
  refine Option.ne_none_iff_exists'.mp fun hnone => top_of_layersOn htop ?_
  rw [top_partAt_screen hplaced, hnone, Option.bind_none]

theorem spoils_iff (hplaced : Placed state) :
    Spoils (layers state) (repainted rect) p ↔
      p ∉ repainted rect ∧ ∃ painted shown, partAt state rect p = some painted ∧ partAt state screen p = some shown ∧
        paintPart state p painted ≠ paintPart state p shown := by
  unfold Spoils
  rw [top_partAt hplaced, top_partAt_screen hplaced]
  refine and_congr_right fun _ => ?_
  constructor
  · rintro ⟨color, hcolor, hne⟩
    obtain ⟨painted, hpainted, hcolor⟩ := Option.bind_eq_some_iff.mp hcolor
    obtain ⟨shown, hshown⟩ := partAt_screen hplaced hpainted
    rw [hshown, Option.bind_some] at hne
    exact ⟨painted, shown, hpainted, hshown, fun heq => hne (heq ▸ hcolor)⟩
  · rintro ⟨painted, shown, hpainted, hshown, hne⟩
    obtain ⟨color, hcolor⟩ := Option.ne_none_iff_exists'.mp (partAt_paints hplaced hpainted)
    refine ⟨color, by rw [hpainted, Option.bind_some, hcolor], ?_⟩
    rw [hshown, Option.bind_some]
    exact fun heq => hne (hcolor.trans heq.symm)

theorem redrawAll_restores (hplaced : Placed state) (dirty : List Rect) :
    (∀ framebuffer : Framebuffer,
        (∀ p, (∀ rect ∈ dirty, p ∉ inRect rect) → framebuffer p = (redrawRegion state screen).apply framebuffer p) →
        ∀ p, redrawAll state dirty framebuffer p = (redrawRegion state screen).apply framebuffer p) ↔
      (∀ rect ∈ dirty, ∀ p ∈ inRect rect, ∃ other ∈ dirty, Touches state other p) ∧
      ∀ p before rect after painted shown, dirty = before ++ rect :: after → p ∉ repainted rect →
        partAt state rect p = some painted → partAt state screen p = some shown →
        paintPart state p painted ≠ paintPart state p shown → ∃ later ∈ after, Touches state later p := by
  have : Nontrivial UInt32 := ⟨0, 1, by decide⟩
  simp only [redrawAll_eq hplaced, redrawScreen_eq hplaced, touches_iff hplaced]
  have hrepair := @repaintAll_iff _ _ _ (background state) (layers state) repainted _ (layers_confined hplaced) dirty
    { p | ∃ rect ∈ dirty, p ∈ inRect rect }
  simp only [Set.mem_ofPred_eq, not_exists, not_and] at hrepair
  rw [hrepair]
  refine and_congr ⟨fun h rect hrect p hp => h p ⟨rect, hrect, hp⟩, fun h p ⟨rect, hrect, hp⟩ => h rect hrect p hp⟩ ?_
  simp only [spoils_iff hplaced]
  exact ⟨fun h p before rect after painted shown hdirty hout hpainted hshown hne =>
      h p before rect after hdirty ⟨hout, painted, shown, hpainted, hshown, hne⟩,
    fun h p before rect after hdirty ⟨hout, painted, shown, hpainted, hshown, hne⟩ =>
      h p before rect after painted shown hdirty hout hpainted hshown hne⟩

end Whole

def withApps (state : RuntimeState) (terminal systemInfo fileManager : Option AppDrawing) : RuntimeState :=
  { state with terminal := terminal, systemInfo := systemInfo, fileManager := fileManager }

end RuntimeState

def fillingApp (pixel : UInt32) : AppDrawing where
  draw content p := if contains content p.1 then some pixel else none
  within content p hp := by
    dsimp only at hp
    split_ifs at hp with hin
    · exact hin
    · exact absurd rfl hp

namespace RuntimeState

section Apps
variable {state : RuntimeState} {terminal systemInfo fileManager : Option AppDrawing} {rect : Rect} {p : Pixel}

theorem paintPart_fixed {part : Part} (hfixed : part.fixed = true) :
    paintPart (withApps state terminal systemInfo fileManager) p part = paintPart state p part := by
  cases part with
  | content i => cases hfixed
  | _ => rfl

def colored (state : RuntimeState) (color : WindowId → UInt32) : RuntimeState :=
  withApps state (some (fillingApp (color terminalWindowId))) (some (fillingApp (color systemInfoWindowId)))
    (some (fillingApp (color fileManagerWindowId)))

theorem drawContent_colored (state : RuntimeState) (color : WindowId → UInt32) {window : Window} (hid : runsApp window.id = true)
    (hin : p ∈ inRect (interior window.bounds)) :
    drawContent (colored state color) window p = some (color window.id) := by
  have hcontent : contains (contentRect window.bounds) p.1 = true := by
    rw [mem_inRect] at hin
    rw [contains_iff]
    unfold interior titleBarHeight at hin
    unfold contentRect titleBarHeight
    dsimp only at hin ⊢
    omega
  have happ : appFor (colored state color) window.id = some (fillingApp (color window.id)) := by
    unfold runsApp at hid
    simp only [Bool.or_eq_true, decide_eq_true_eq] at hid
    rcases hid with (hid | hid) | hid <;>
    · rw [hid]
      rfl
  unfold drawContent
  rw [happ]
  exact if_pos hcontent

theorem paintPart_colored (color : WindowId → UInt32) {i : Slot} (hpart : partAt state rect p = some (.content i)) :
    paintPart (colored state color) p (.content i) = some (color (state.windows.windows i).id) ∧
      i ∈ state.windows.openWindowsInZOrder maxWindows := by
  unfold partAt at hpart
  dsimp only at hpart
  split_ifs at hpart
  · cases hpart
  · cases hpart
  obtain ⟨j, hfound, hj⟩ := Option.map_eq_some_iff.mp hpart
  have hmem := List.mem_reverse.mp (List.mem_of_find?_eq_some hfound)
  unfold windowPart at hj
  dsimp only at hj
  split_ifs at hj with happ
  obtain rfl := Part.content.inj hj
  simp only [Bool.and_eq_true] at happ
  refine ⟨?_, hmem⟩
  have hin : p ∈ inRect (interior (state.windows.windows j).bounds) := happ.1.2
  have hcontent := drawContent_colored state color happ.1.1 hin
  exact (congrArg (Option.or · _) hcontent).trans (Option.some_or)

theorem exists_colored (hids : state.windows.windows.DistinctIds) (hplaced : Placed state) {rect' : Rect}
    {painted shown : Part} (hpainted : partAt state rect p = some painted) (hshown : partAt state rect' p = some shown)
    (hne : painted ≠ shown) (hcontent : ¬(painted.fixed = true ∧ shown.fixed = true)) :
    ∃ color, paintPart (colored state color) p painted ≠ paintPart (colored state color) p shown := by
  -- two different parts, one of them the content of an application, get different colours from some
  -- applications
  have hother : ∀ a : Option UInt32, ∃ c, a ≠ some c := by
    intro a
    by_cases ha : a = some 0
    · exact ⟨1, by rw [ha]; decide⟩
    · exact ⟨0, ha⟩
  cases hp : painted.fixed with
  | true =>
    cases shown with
    | content j =>
      obtain ⟨c, hc⟩ := hother (paintPart state p painted)
      refine ⟨fun _ => c, ?_⟩
      rw [(paintPart_colored _ hshown).1]
      exact fun heq => hc ((paintPart_fixed hp).symm.trans heq)
    | _ => exact absurd ⟨hp, rfl⟩ hcontent
  | false =>
    cases painted with
    | content i =>
      cases hs : shown.fixed with
      | true =>
        obtain ⟨c, hc⟩ := hother (paintPart state p shown)
        refine ⟨fun _ => c, ?_⟩
        rw [(paintPart_colored _ hpainted).1]
        exact fun heq => hc ((paintPart_fixed hs).symm.trans heq.symm)
      | false =>
        cases shown with
        | content j =>
          have hid : (state.windows.windows j).id ≠ (state.windows.windows i).id := by
            intro heq
            have hi := (hplaced i (paintPart_colored (fun _ => 0) hpainted).2).1
            have hj := (hplaced j (paintPart_colored (fun _ => 0) hshown).2).1
            refine hne (congrArg Part.content (hids.inj i j ?_ ?_ heq.symm))
            · unfold Windows.live
              rw [hi]
              rfl
            · unfold Windows.live
              rw [hj]
              rfl
          refine ⟨fun id => if id = (state.windows.windows i).id then 0 else 1, ?_⟩
          rw [(paintPart_colored _ hpainted).1, (paintPart_colored _ hshown).1, if_pos rfl, if_neg hid]
          decide
        | _ => cases hs
    | _ => cases hp

/-- Whatever the applications draw, the screen is restored exactly if the parts painted are those that belong there. -/
theorem restorable_iff (hids : state.windows.windows.DistinctIds) (hplaced : Placed state) (dirty : List Rect) :
    (∀ terminal systemInfo fileManager, ∀ framebuffer : Framebuffer,
        (∀ p, (∀ rect ∈ dirty, p ∉ inRect rect) →
          framebuffer p = (redrawRegion (withApps state terminal systemInfo fileManager) screen).apply framebuffer p) →
        ∀ p, redrawAll (withApps state terminal systemInfo fileManager) dirty framebuffer p =
          (redrawRegion (withApps state terminal systemInfo fileManager) screen).apply framebuffer p) ↔
      Restorable state dirty := by
  have hrestores : ∀ terminal systemInfo fileManager, Placed (withApps state terminal systemInfo fileManager) :=
    fun _ _ _ => hplaced
  constructor
  · intro h
    refine ⟨fun rect hrect _ p hp => ?_, fun p before rect after painted hdirty hout hpainted => ?_⟩
    · exact ((redrawAll_restores hplaced dirty).mp (h state.terminal state.systemInfo state.fileManager)).1 rect hrect p hp
    · obtain ⟨shown, hshown⟩ := partAt_screen hplaced hpainted
      by_contra hbad
      push Not at hbad
      obtain ⟨hunlike, hlast⟩ := hbad
      have hunlike := hunlike shown hshown
      unfold Alike at hunlike
      push Not at hunlike
      obtain ⟨hne, hcolors⟩ := hunlike
      have hcontradiction : ∀ terminal systemInfo fileManager,
          paintPart (withApps state terminal systemInfo fileManager) p painted =
            paintPart (withApps state terminal systemInfo fileManager) p shown := by
        intro terminal systemInfo fileManager
        by_contra hdiffer
        obtain ⟨later, hlater, htouches⟩ := ((redrawAll_restores (hrestores _ _ _) dirty).mp
          (h terminal systemInfo fileManager)).2 p before rect after painted shown hdirty hout hpainted hshown hdiffer
        exact hlast later hlater htouches
      by_cases hfixed : painted.fixed = true ∧ shown.fixed = true
      · exact hcolors hfixed.1 hfixed.2
          (hcontradiction state.terminal state.systemInfo state.fileManager)
      · obtain ⟨color, hdiffer⟩ := exists_colored hids hplaced hpainted hshown hne hfixed
        exact hdiffer (hcontradiction _ _ _)
  · intro h terminal systemInfo fileManager
    refine (redrawAll_restores (hrestores _ _ _) dirty).mpr ⟨fun rect hrect p hp => ?_, ?_⟩
    · by_cases hfits : rect.FitsInt32
      · exact ⟨rect, hrect, Or.inl (by rw [repainted_eq hfits]; exact hp)⟩
      · exact h.edges rect hrect hfits p hp
    · intro p before rect after painted shown hdirty hout hpainted hshown hdiffer
      rcases h.parts p before rect after painted hdirty hout hpainted with ⟨shown', hshown', halike⟩ | hlater
      · obtain rfl := Option.some.inj (hshown'.symm.trans hshown)
        rcases halike with rfl | ⟨hp, hs, heq⟩
        · exact absurd rfl hdiffer
        · rw [paintPart_fixed hp, paintPart_fixed hs] at hdiffer
          exact absurd heq hdiffer
      · exact hlater

end Apps

end RuntimeState

inductive QueueCall where
  | invalidate (region : Rect)
  | clear
  deriving DecidableEq, Repr

namespace DirtyRegionQueue

def step (queue : DirtyRegionQueue) : QueueCall → DirtyRegionQueue
  | .invalidate region => queue.invalidate region
  | .clear => queue.clear

def run (queue : DirtyRegionQueue) (calls : List QueueCall) : DirtyRegionQueue :=
  calls.foldl step queue

/-- The regions invalidated since the last `clear`, `earlier` being those before the calls. -/
def pending (earlier : List Rect) : List QueueCall → List Rect
  | [] => earlier
  | .invalidate region :: rest => pending (earlier ++ [region]) rest
  | .clear :: rest => pending [] rest

def covered (queue : DirtyRegionQueue) : Set Pixel :=
  { p | ∃ index < queue.size, p ∈ inRect (queue.rect index) }

def visible (regions : List Rect) : List Rect :=
  regions.filter fun region => decide (0 < (clipToScreen region).width ∧ 0 < (clipToScreen region).height)

/-- The queue has the clipped regions, or the whole screen once they were too many. -/
def Holds (queue : DirtyRegionQueue) (regions : List Rect) : Prop :=
  (visible regions).length ≤ maxDirtyRects ∧ queue.rects = (visible regions).map clipToScreen ∨
    maxDirtyRects < (visible regions).length ∧ screen ∈ queue.rects

section Queue
variable {queue : DirtyRegionQueue} {regions : List Rect} {p : Pixel}

theorem mem_covered : p ∈ queue.covered ↔ ∃ rect ∈ queue.rects, p ∈ inRect rect := by
  unfold covered size rect
  rw [Set.mem_ofPred_eq]
  constructor
  · rintro ⟨index, hindex, hp⟩
    rw [List.getD_eq_getElem?_getD, List.getElem?_eq_getElem hindex, Option.getD_some] at hp
    exact ⟨_, List.getElem_mem hindex, hp⟩
  · rintro ⟨rect, hrect, hp⟩
    obtain ⟨index, hindex, rfl⟩ := List.getElem_of_mem hrect
    refine ⟨index, hindex, ?_⟩
    rw [List.getD_eq_getElem?_getD, List.getElem?_eq_getElem hindex, Option.getD_some]
    exact hp

theorem holds_initial : initial.Holds [] := Or.inl ⟨Nat.zero_le _, rfl⟩

theorem Holds.invalidate (h : queue.Holds regions) (region : Rect) :
    (queue.invalidate region).Holds (regions ++ [region]) := by
  unfold Holds visible DirtyRegionQueue.invalidate at *
  rw [List.filter_append]
  dsimp only
  by_cases hempty : (clipToScreen region).width ≤ 0 ∨ (clipToScreen region).height ≤ 0
  · rw [if_pos hempty, List.filter_cons_of_neg (by simp only [decide_eq_true_eq]; omega), List.filter_nil,
      List.append_nil]
    exact h
  rw [if_neg hempty, List.filter_cons_of_pos (by simp only [decide_eq_true_eq]; omega), List.filter_nil,
    List.length_append, List.length_singleton]
  split_ifs with hfull
  · refine Or.inr ⟨?_, List.mem_singleton_self _⟩
    rcases h with ⟨-, hrects⟩ | ⟨hmany, -⟩
    · rw [hrects, List.length_map] at hfull
      omega
    · omega
  · rcases h with ⟨-, hrects⟩ | ⟨hmany, hscreen⟩
    · rw [hrects, List.length_map] at hfull
      refine Or.inl ⟨by omega, ?_⟩
      rw [hrects, List.map_append, List.map_singleton]
    · exact Or.inr ⟨by omega, List.mem_append_left _ hscreen⟩

theorem holds_run (calls : List QueueCall) : ∀ {queue : DirtyRegionQueue} {earlier : List Rect},
    queue.Holds earlier → (queue.run calls).Holds (pending earlier calls) := by
  induction calls with
  | nil => exact fun h => h
  | cons call calls ih =>
    intro queue earlier h
    cases call with
    | clear => exact ih (Or.inl ⟨Nat.zero_le _, rfl⟩)
    | invalidate region => exact ih (h.invalidate region)

theorem mem_covered_iff (h : queue.Holds regions) :
    p ∈ queue.covered ↔ maxDirtyRects < (visible regions).length ∨ ∃ region ∈ regions, p ∈ repainted region := by
  have hseen : ∀ {region}, p ∈ repainted region → 0 < (clipToScreen region).width ∧ 0 < (clipToScreen region).height := by
    intro region hp
    rw [repainted, mem_inRect] at hp
    omega
  rw [mem_covered]
  rcases h with ⟨hfew, hrects⟩ | ⟨hmany, hscreen⟩
  · rw [hrects, or_iff_right (by omega)]
    constructor
    · rintro ⟨_, hrect, hp⟩
      obtain ⟨region, hregion, rfl⟩ := List.mem_map.mp hrect
      exact ⟨region, (List.mem_filter.mp hregion).1, hp⟩
    · rintro ⟨region, hregion, hp⟩
      exact ⟨_, List.mem_map_of_mem (List.mem_filter.mpr ⟨hregion, decide_eq_true (hseen hp)⟩), hp⟩
  · refine iff_of_true ⟨screen, hscreen, ?_⟩ (Or.inl hmany)
    rw [← repainted_eq (by decide)]
    exact RuntimeState.mem_repainted_screen p

/-- Only a region with an edge beyond `int32_t` can be lost, when no other one covers its pixels. -/
theorem covers_iff (h : queue.Holds regions) :
    (∀ region ∈ regions, inRect region ⊆ queue.covered) ↔
      ∀ region ∈ regions, ¬ region.FitsInt32 → maxDirtyRects < (visible regions).length ∨
        ∀ p ∈ inRect region, ∃ other ∈ regions, p ∈ repainted other := by
  constructor
  · intro hcovered region hregion _
    by_cases hmany : maxDirtyRects < (visible regions).length
    · exact Or.inl hmany
    · exact Or.inr fun p hp => ((mem_covered_iff h).mp (hcovered region hregion hp)).resolve_left hmany
  · intro hcond region hregion p hp
    rw [mem_covered_iff h]
    by_cases hfits : region.FitsInt32
    · exact Or.inr ⟨region, hregion, by rw [repainted_eq hfits]; exact hp⟩
    · exact (hcond region hregion hfits).imp_right fun hothers => hothers p hp

end Queue

end DirtyRegionQueue

open RuntimeState DirtyRegionQueue in
/-- Redrawing the dirty rectangles one by one restores the full picture, whatever the applications draw, exactly
when the parts that the redraws paint beside their rectangles are those that the screen shows there or are painted
over later, and no rectangle has an edge beyond `int32_t`, unless others repaint its pixels. The queue loses no
part of the screen but of a region with such an edge. -/
theorem redraw_restores_iff (state : RuntimeState) (ops : List Op)
    (hwindows : state.windows = WindowManager.initial.run ops) (dirty : List Rect) (calls : List QueueCall) :
    ((∀ terminal systemInfo fileManager, ∀ framebuffer : Framebuffer,
        (∀ p, (∀ rect ∈ dirty, p ∉ inRect rect) →
          framebuffer p = (redrawRegion (withApps state terminal systemInfo fileManager) screen).apply framebuffer p) →
        ∀ p, redrawAll (withApps state terminal systemInfo fileManager) dirty framebuffer p =
          (redrawRegion (withApps state terminal systemInfo fileManager) screen).apply framebuffer p) ↔
      Restorable state dirty) ∧
    ((∀ region ∈ pending [] calls, inRect region ⊆ (DirtyRegionQueue.initial.run calls).covered) ↔
      ∀ region ∈ pending [] calls, ¬ region.FitsInt32 → maxDirtyRects < (visible (pending [] calls)).length ∨
        ∀ p ∈ inRect region, ∃ other ∈ pending [] calls, p ∈ repainted other) := by
  have hinv : WindowManager.Inv state.windows := by
    rw [hwindows]
    exact WindowManager.inv_initial.run ops
  exact ⟨restorable_iff hinv.ids (placed_run hwindows) dirty, covers_iff (holds_run calls holds_initial)⟩

def lonelyTerminal : RuntimeState where
  format := ⟨8, 16, 8, 8, 8, 0⟩
  windows := WindowManager.initial.run [.addWindow terminalWindowId ⟨40, 70, 760, 430⟩ true true]
  terminal := some (fillingApp 0)
  systemInfo := none
  fileManager := none
  menuOpen := false
  lastUptime := 0

def titleBarRect : Rect := ⟨100, 75, 10, 5⟩

def contentPixel : Pixel := ⟨⟨400, 300⟩, by unfold OnScreen; decide⟩

open RuntimeState in
/-- A redraw of the whole screen repairs what the one before it spoiled. -/
theorem redraw_restores_iff_screen_last :
    redrawAll lonelyTerminal [titleBarRect, screen] (fun _ => 0) =
      (redrawRegion lonelyTerminal screen).apply fun _ => 0 := by
  have hrestorable : Restorable lonelyTerminal [titleBarRect, screen] := by
    refine ⟨fun _ _ _ p _ => ⟨screen, by simp, Or.inl (mem_repainted_screen p)⟩, ?_⟩
    intro p before rect after painted hdirty hout _
    match before, hdirty with
    | [], hdirty =>
      obtain ⟨-, rfl⟩ := List.cons.inj hdirty
      exact Or.inr ⟨screen, List.mem_singleton_self _, Or.inl (mem_repainted_screen p)⟩
    | [_], hdirty =>
      obtain ⟨rfl, -⟩ := List.cons.inj (List.cons.inj hdirty).2
      exact absurd (mem_repainted_screen p) hout
    | _ :: _ :: before, hdirty =>
      have hnil := (List.cons.inj (List.cons.inj hdirty).2).2
      simp at hnil
  refine funext ((redraw_restores_iff lonelyTerminal _ rfl [titleBarRect, screen] []).1.mpr hrestorable
    lonelyTerminal.terminal none none _ ?_)
  intro p hout
  have hscreen := hout screen (by simp)
  rw [← repainted_eq (by decide)] at hscreen
  exact absurd (mem_repainted_screen p) hscreen

/-- All of the screen but its first column, with a right edge of `2 ^ 31`. -/
def wideRect : Rect := ⟨1, 0, 2 ^ 31 - 1, 720⟩

open RuntimeState in
/-- A dirty rectangle in the title bar alone: the frame is filled over the whole window and the
application is not asked to draw, so its content is gone. And the queue drops a region whose edge overflows. -/
theorem title_bar_redraw_erases_content :
    (¬ ∀ framebuffer : Framebuffer,
      (∀ p, (∀ rect ∈ [titleBarRect], p ∉ inRect rect) →
        framebuffer p = (redrawRegion lonelyTerminal screen).apply framebuffer p) →
      ∀ p, redrawAll lonelyTerminal [titleBarRect] framebuffer p =
        (redrawRegion lonelyTerminal screen).apply framebuffer p) ∧
    ¬ inRect wideRect ⊆ (DirtyRegionQueue.initial.run [.invalidate wideRect]).covered := by
  have hplaced : Placed lonelyTerminal := placed_run rfl
  have horder : lonelyTerminal.windows.openWindowsInZOrder maxWindows = [⟨0, by decide⟩] := by decide
  have hid : (lonelyTerminal.windows.windows ⟨0, by decide⟩).id = terminalWindowId := by decide
  have hbounds : (lonelyTerminal.windows.windows ⟨0, by decide⟩).bounds = ⟨40, 70, 760, 430⟩ := by decide
  obtain ⟨-, hfits⟩ := hplaced ⟨0, by decide⟩ (by rw [horder]; exact List.mem_singleton_self _)
  refine ⟨fun hrestores => ?_, fun hcovered => ?_⟩
  · have hcontrols : drawControls lonelyTerminal contentPixel = none := by
      by_contra hdraws
      have hpanel := mem_inRect.mp (drawControls_within _ hdraws)
      revert hpanel
      decide
    have hpart : ∀ rect, partAt lonelyTerminal rect contentPixel =
        ([(⟨0, by decide⟩ : Slot)].find? fun i => contains (lonelyTerminal.windows.windows i).bounds contentPixel.1 &&
          intersects (lonelyTerminal.windows.windows i).bounds (clipToScreen rect)).map
            (windowPart lonelyTerminal (clipToScreen rect) contentPixel.1) := by
      intro rect
      unfold partAt
      dsimp only
      have hmenu : lonelyTerminal.menuOpen = false := rfl
      rw [hcontrols, horder, hmenu, Bool.false_and, Bool.false_and, Option.isSome_none, Bool.and_false]
      rfl
    have hpainted : partAt lonelyTerminal titleBarRect contentPixel = some (.frame ⟨0, by decide⟩) := by
      rw [hpart]
      decide
    have hshown : partAt lonelyTerminal screen contentPixel = some (.content ⟨0, by decide⟩) := by
      rw [hpart]
      decide
    have hframe : paintPart lonelyTerminal contentPixel (.frame ⟨0, by decide⟩) = some 0xC0C0C0 := by
      obtain ⟨titleBar, heq, hwithin⟩ := drawChrome_eq lonelyTerminal hfits
      have htitle : titleBar contentPixel = none := by
        by_contra hdraws
        have hin := mem_inRect.mp (hwithin _ hdraws)
        rw [hbounds] at hin
        revert hin
        decide
      have hborder : drawRect lonelyTerminal.format (lonelyTerminal.windows.windows ⟨0, by decide⟩).bounds black
          contentPixel = none := by
        by_contra hdraws
        obtain ⟨-, hedge⟩ := drawRect_within _ _ hdraws
        rw [hbounds] at hedge
        revert hedge
        decide
      rw [paintPart, hborder, heq, seq_apply, htitle, fillRect_eq, hbounds]
      rfl
    have hcontent : paintPart lonelyTerminal contentPixel (.content ⟨0, by decide⟩) = some 0 := by
      rw [paintPart, drawContent, hid, hbounds]
      rfl
    have hout : contentPixel ∉ repainted titleBarRect := by
      rw [repainted_eq (by decide), mem_inRect]
      decide
    obtain ⟨_, hnone, -⟩ := ((redrawAll_restores hplaced _).mp hrestores).2 contentPixel [] titleBarRect [] _ _ rfl hout
      hpainted hshown (by rw [hframe, hcontent]; decide)
    cases hnone
  · have hin : contentPixel ∈ inRect wideRect := by
      rw [mem_inRect]
      decide
    have hholds : (DirtyRegionQueue.initial.run [.invalidate wideRect]).Holds [wideRect] :=
      DirtyRegionQueue.holds_run [.invalidate wideRect] DirtyRegionQueue.holds_initial
    have hnothing : repainted wideRect = ∅ := repainted_of_overflow (by decide) (by decide) (Or.inl (by decide))
    rcases (DirtyRegionQueue.mem_covered_iff hholds).mp (hcovered hin) with hmany | ⟨_, hregion, hp⟩
    · revert hmany
      decide
    · rw [List.mem_singleton.mp hregion, hnothing] at hp
      exact hp

end Linux95.Gui
