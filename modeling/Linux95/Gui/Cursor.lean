import Linux95.Base.SaveUnder
import Linux95.Gui.Desktop
import Linux95.Gui.LineDrawing
import Linux95.Input.MouseQueue

/-! The mouse cursor of `gui/desktop.cpp`: it is painted over the picture, and what was under it is kept until
it is erased. -/

namespace Linux95.Gui
open Base Base.Drawing

def cursorWidth : Int := 12
def cursorHeight : Int := 18

/-- The fields of the source's `RuntimeState` that the cursor and the redraws use. Everything else they depend on
is in `runtime`. -/
structure DesktopState where
  runtime : RuntimeState
  dirty : DirtyRegionQueue
  framebuffer : Framebuffer
  mouseOnline : Bool
  mousePosition : Point
  cursorBacking : List UInt32
  cursorDrawn : Bool

namespace DesktopState

/-- The constructor leaves `cursor_backing` as it is. -/
def initial (runtime : RuntimeState) (framebuffer : Framebuffer) (mouseOnline : Bool) (cursorBacking : List UInt32) :
    DesktopState where
  runtime := runtime
  dirty := .initial
  framebuffer := framebuffer
  mouseOnline := mouseOnline
  mousePosition := ⟨screenWidth / 2, screenHeight / 2⟩
  cursorBacking := cursorBacking
  cursorDrawn := false

instance (p : Point) : Decidable (OnScreen p) := by
  unfold OnScreen
  infer_instance

/-- The pixel that `read_framebuffer_pixel` and `write_framebuffer_pixel` access. They do not check that there is
one. -/
def pixelAt (p : Point) : Option Pixel := if h : OnScreen p then some ⟨p, h⟩ else none

def cursorPoints (position : Point) : List Point :=
  (List.range cursorHeight.toNat).flatMap fun y : Nat =>
    (List.range cursorWidth.toNat).map fun x : Nat => ⟨position.x + x, position.y + y⟩

def restoreCursor (state : DesktopState) : Option DesktopState :=
  if !state.mouseOnline || !state.cursorDrawn then some state
  else do
    let framebuffer ← writeAll pixelAt (cursorPoints state.mousePosition) state.cursorBacking state.framebuffer
    pure { state with framebuffer := framebuffer, cursorDrawn := false }

def drawCursor (format : PixelFormat) (position : Point) : Painting :=
  let x := position.x
  let y := position.y
  seqAll [drawLine format x y x (y + cursorHeight - 1) white,
    drawLine format x y (x + cursorWidth - 1) (y + 10) white,
    drawLine format x (y + cursorHeight - 1) (x + 4) (y + 13) white,
    drawLine format (x + 1) (y + 1) (x + 1) (y + 12) black,
    drawLine format (x + 1) (y + 1) (x + cursorWidth - 2) (y + 10) black]

def drawCursorOverlay (state : DesktopState) : Option DesktopState :=
  if !state.mouseOnline || state.cursorDrawn then some state
  else do
    let backing ← readAll pixelAt state.framebuffer (cursorPoints state.mousePosition)
    pure { state with
      cursorBacking := backing
      framebuffer := (drawCursor state.runtime.format state.mousePosition).apply state.framebuffer
      cursorDrawn := true }

def clampCursor (point : Point) : Point :=
  ⟨clampValue point.x 0 (screenWidth - cursorWidth), clampValue point.y 0 (screenHeight - cursorHeight)⟩

def processMouseEvent (event : Input.MouseEvent) (state : DesktopState) : Option DesktopState := do
  let state ← restoreCursor state
  let next : Point := ⟨int32 (state.mousePosition.x + event.dx), int32 (state.mousePosition.y - event.dy)⟩
  pure { state with mousePosition := clampCursor next }

def redrawDirty (state : DesktopState) : Option DesktopState :=
  if state.dirty.size = 0 then some state
  else do
    let state ← restoreCursor state
    let framebuffer := state.runtime.redrawAll state.dirty.rects state.framebuffer
    drawCursorOverlay { state with framebuffer := framebuffer, dirty := state.dirty.clear }

end DesktopState

/-- What the desktop does. An update stands for all that an event does besides moving the cursor: it changes what
is shown and invalidates regions, and the format of the framebuffer stays. -/
inductive DesktopAction where
  | mouse (event : Input.MouseEvent)
  | update (change : RuntimeState → RuntimeState) (regions : List Rect)
  | redraw
  | overlay

structure Canvas where
  runtime : RuntimeState
  dirty : DirtyRegionQueue
  picture : Framebuffer

def updated (change : RuntimeState → RuntimeState) (runtime : RuntimeState) : RuntimeState :=
  { change runtime with format := runtime.format }

namespace Canvas

def step (canvas : Canvas) : DesktopAction → Canvas
  | .mouse _ => canvas
  | .update change regions =>
    { canvas with
      runtime := updated change canvas.runtime
      dirty := regions.foldl DirtyRegionQueue.invalidate canvas.dirty }
  | .redraw =>
    { canvas with
      dirty := canvas.dirty.clear
      picture := canvas.runtime.redrawAll canvas.dirty.rects canvas.picture }
  | .overlay => canvas

def run (canvas : Canvas) (actions : List DesktopAction) : Canvas := actions.foldl step canvas

end Canvas

namespace DesktopState

def step (state : DesktopState) : DesktopAction → Option DesktopState
  | .mouse event => processMouseEvent event state
  | .update change regions =>
    some { state with
      runtime := updated change state.runtime
      dirty := regions.foldl DirtyRegionQueue.invalidate state.dirty }
  | .redraw => redrawDirty state
  | .overlay => drawCursorOverlay state

def run (state : DesktopState) (actions : List DesktopAction) : Option DesktopState := actions.foldlM step state

section Box
variable {position : Point}

def InReach (position : Point) : Prop :=
  (0 ≤ position.x ∧ position.x ≤ screenWidth - cursorWidth) ∧
    0 ≤ position.y ∧ position.y ≤ screenHeight - cursorHeight

theorem clampCursor_inReach (point : Point) : InReach (clampCursor point) := by
  have hx : 0 ≤ screenWidth - cursorWidth := by decide
  have hy : 0 ≤ screenHeight - cursorHeight := by decide
  unfold InReach clampCursor clampValue
  dsimp only
  constructor <;> split_ifs <;> omega

theorem mem_cursorPoints {q : Point} : q ∈ cursorPoints position ↔
    (position.x ≤ q.x ∧ q.x < position.x + cursorWidth) ∧
      position.y ≤ q.y ∧ q.y < position.y + cursorHeight := by
  unfold cursorPoints
  simp only [List.mem_flatMap, List.mem_map, List.mem_range]
  constructor
  · rintro ⟨y, hy, x, hx, rfl⟩
    dsimp only
    omega
  · rintro ⟨hx, hy⟩
    refine ⟨(q.y - position.y).toNat, by omega, (q.x - position.x).toNat, by omega, ?_⟩
    rw [Int.toNat_of_nonneg (by omega), Int.toNat_of_nonneg (by omega)]
    exact congrArg₂ Point.mk (by omega) (by omega)

theorem pixelAt_pixel (p : Pixel) : pixelAt p.1 = some p := dif_pos p.2

theorem cursorPoints_located (h : InReach position) : ∀ q ∈ cursorPoints position, ∃ p, pixelAt q = some p := by
  intro q hq
  rw [mem_cursorPoints] at hq
  have hscreen : OnScreen q := by
    unfold InReach at h
    unfold OnScreen
    omega
  exact ⟨⟨q, hscreen⟩, dif_pos hscreen⟩

theorem drawCursor_within (format : PixelFormat) (position : Point) :
    (drawCursor format position).Within { p | p.1 ∈ cursorPoints position } := by
  have hwidth : cursorWidth = 12 := rfl
  have hheight : cursorHeight = 18 := rfl
  apply Within.seqAll
  intro a ha
  simp only [List.mem_cons, List.not_mem_nil, or_false] at ha
  rcases ha with rfl | rfl | rfl | rfl | rfl
  all_goals
    apply drawLine_within
    intro p hleft hright htop hbottom
    rw [Set.mem_ofPred_eq, mem_cursorPoints]
    omega

theorem drawCursor_sameOutside (format : PixelFormat) (position : Point) (image : Framebuffer) :
    SameOutside pixelAt (cursorPoints position) image ((drawCursor format position).apply image) := by
  intro p hp
  have hnone : drawCursor format position p = none := by
    by_contra hdrawn
    exact hp p.1 (drawCursor_within format position p hdrawn) (pixelAt_pixel p)
  rw [Drawing.apply, hnone, Option.getD_none]

end Box

structure Shows (state : DesktopState) (canvas : Canvas) : Prop where
  runtime : state.runtime = canvas.runtime
  dirty : state.dirty = canvas.dirty
  position : InReach state.mousePosition
  offline : state.mouseOnline = false → state.cursorDrawn = false
  hidden : state.cursorDrawn = false → state.framebuffer = canvas.picture
  shown : state.cursorDrawn = true →
    readAll pixelAt canvas.picture (cursorPoints state.mousePosition) = some state.cursorBacking ∧
      SameOutside pixelAt (cursorPoints state.mousePosition) canvas.picture state.framebuffer

section Steps
variable {state : DesktopState} {canvas : Canvas}

theorem Shows.restoreCursor (h : Shows state canvas) :
    restoreCursor state = some { state with framebuffer := canvas.picture, cursorDrawn := false } := by
  unfold DesktopState.restoreCursor
  cases hdrawn : state.cursorDrawn with
  | false =>
    have hsame : { state with framebuffer := canvas.picture, cursorDrawn := false } = state := by
      rw [← h.hidden hdrawn, ← hdrawn]
    rw [hsame, if_pos (by simp)]
  | true =>
    have honline : state.mouseOnline = true := by
      by_contra hoff
      have hhidden := h.offline (Bool.eq_false_of_not_eq_true hoff)
      rw [hdrawn] at hhidden
      cases hhidden
    obtain ⟨hread, hsame⟩ := h.shown hdrawn
    obtain ⟨values, hvalues, hwrite⟩ := writeAll_readAll (cursorPoints_located h.position) canvas.picture
    rw [hread] at hvalues
    cases hvalues
    rw [honline, if_neg (by simp), hwrite _ hsame]
    rfl

theorem Shows.hide (h : Shows state canvas) :
    Shows { state with framebuffer := canvas.picture, cursorDrawn := false } canvas where
  runtime := h.runtime
  dirty := h.dirty
  position := h.position
  offline := fun _ => rfl
  hidden := fun _ => rfl
  shown := fun hdrawn => absurd hdrawn Bool.false_ne_true

theorem Shows.drawCursorOverlay (h : Shows state canvas) :
    ∃ state', drawCursorOverlay state = some state' ∧ Shows state' canvas := by
  unfold DesktopState.drawCursorOverlay
  split_ifs with hskip
  · exact ⟨state, rfl, h⟩
  · rw [Bool.or_eq_true, Bool.not_eq_true'] at hskip
    push Not at hskip
    obtain ⟨honline, hdrawn⟩ := hskip
    have hpicture := h.hidden (Bool.eq_false_of_not_eq_true hdrawn)
    obtain ⟨values, hread, -⟩ := writeAll_readAll (cursorPoints_located h.position) canvas.picture
    rw [hpicture, hread]
    refine ⟨_, rfl, h.runtime, h.dirty, h.position, fun hoff => absurd hoff honline, fun hnot => ?_, fun _ => ?_⟩
    · cases hnot
    · exact ⟨hread, drawCursor_sameOutside _ _ _⟩

theorem Shows.processMouseEvent (h : Shows state canvas) (event : Input.MouseEvent) :
    ∃ state', processMouseEvent event state = some state' ∧ Shows state' canvas := by
  unfold DesktopState.processMouseEvent
  rw [h.restoreCursor]
  exact ⟨_, rfl, { h.hide with
    position := clampCursor_inReach _
    shown := fun hdrawn => absurd hdrawn Bool.false_ne_true }⟩

theorem Shows.redrawDirty (h : Shows state canvas) :
    ∃ state', redrawDirty state = some state' ∧ Shows state' (canvas.step .redraw) := by
  unfold DesktopState.redrawDirty
  split_ifs with hempty
  · have hrects : canvas.dirty.rects = [] := by
      rw [← h.dirty]
      exact List.eq_nil_of_length_eq_zero hempty
    have hsame : canvas.step .redraw = canvas := by
      have hclear : canvas.dirty.clear = canvas.dirty := congrArg DirtyRegionQueue.mk hrects.symm
      unfold Canvas.step
      dsimp only
      rw [hclear, hrects]
      rfl
    rw [hsame]
    exact ⟨state, rfl, h⟩
  · rw [h.restoreCursor]
    apply Shows.drawCursorOverlay
    refine ⟨h.runtime, rfl, h.position, fun _ => rfl, fun _ => ?_, fun hdrawn => absurd hdrawn Bool.false_ne_true⟩
    unfold Canvas.step
    dsimp only
    rw [h.runtime, h.dirty]

theorem Shows.step (h : Shows state canvas) (action : DesktopAction) :
    ∃ state', step state action = some state' ∧ Shows state' (canvas.step action) := by
  cases action with
  | mouse event => exact h.processMouseEvent event
  | update change regions =>
    refine ⟨_, rfl, ?_, ?_, h.position, h.offline, h.hidden, h.shown⟩
    · exact congrArg (updated change) h.runtime
    · exact congrArg (regions.foldl DirtyRegionQueue.invalidate) h.dirty
  | redraw => exact h.redrawDirty
  | overlay => exact h.drawCursorOverlay

theorem Shows.run (h : Shows state canvas) (actions : List DesktopAction) :
    ∃ state', run state actions = some state' ∧ Shows state' (canvas.run actions) := by
  induction actions generalizing state canvas with
  | nil => exact ⟨state, rfl, h⟩
  | cons action actions ih =>
    obtain ⟨next, hnext, hshows⟩ := h.step action
    obtain ⟨last, hlast, hshows'⟩ := ih hshows
    refine ⟨last, ?_, hshows'⟩
    unfold DesktopState.run
    rw [List.foldlM_cons, hnext]
    exact hlast

end Steps

theorem shows_initial (runtime : RuntimeState) (framebuffer : Framebuffer) (mouseOnline : Bool)
    (cursorBacking : List UInt32) :
    Shows (initial runtime framebuffer mouseOnline cursorBacking) ⟨runtime, .initial, framebuffer⟩ where
  runtime := rfl
  dirty := rfl
  position := show InReach ⟨screenWidth / 2, screenHeight / 2⟩ by
    unfold InReach
    decide
  offline := fun _ => rfl
  hidden := fun _ => rfl
  shown := fun hdrawn => absurd hdrawn Bool.false_ne_true

/-- Drawing and erasing the cursor shows the picture of a desktop that has none, after every run. -/
theorem run_overlay_restore (runtime : RuntimeState) (framebuffer : Framebuffer) (mouseOnline : Bool)
    (cursorBacking : List UInt32) (actions : List DesktopAction) :
    ∃ state shown hidden, run (initial runtime framebuffer mouseOnline cursorBacking) actions = some state ∧
      drawCursorOverlay state = some shown ∧ restoreCursor shown = some hidden ∧
      hidden.framebuffer = (Canvas.run ⟨runtime, .initial, framebuffer⟩ actions).picture ∧
      (state.cursorDrawn = false → hidden.framebuffer = state.framebuffer) := by
  obtain ⟨state, hrun, hshows⟩ := (shows_initial runtime framebuffer mouseOnline cursorBacking).run actions
  obtain ⟨shown, hoverlay, hshows'⟩ := hshows.drawCursorOverlay
  exact ⟨state, shown, _, hrun, hoverlay, hshows'.restoreCursor, rfl, fun hnot => (hshows.hidden hnot).symm⟩

end DesktopState

open DesktopState

theorem lines_and_cursor :
    (∀ x0 y0 x1 y1 : Int, (∀ c ∈ [x0, y0, x1, y1], c.natAbs ≤ 357913941) →
      ∀ fuel, max (x1 - x0).natAbs (y1 - y0).natAbs < fuel →
        ∃ points, linePlots fuel x0 y0 x1 y1 = .ok points ∧ LeadsTo x0 y0 x1 y1 points ∧
          ∀ format color, drawLine format x0 y0 x1 y1 color =
            seqAll (points.map fun p => putPixel format p.x p.y color)) ∧
    (∀ (rect : Rect) (width height : Int),
      (∀ c ∈ [rect.x, rect.y, rect.width, rect.height, width, height], -2 ^ 31 ≤ c ∧ c < 2 ^ 31) →
        Clips rect width height (clipRect rect width height)) ∧
    ∀ (runtime : RuntimeState) (framebuffer : Framebuffer) (mouseOnline : Bool) (cursorBacking : List UInt32)
      (actions : List DesktopAction),
      ∃ state shown hidden, run (initial runtime framebuffer mouseOnline cursorBacking) actions = some state ∧
        drawCursorOverlay state = some shown ∧ restoreCursor shown = some hidden ∧
        hidden.framebuffer = (Canvas.run ⟨runtime, .initial, framebuffer⟩ actions).picture ∧
        (state.cursorDrawn = false → hidden.framebuffer = state.framebuffer) := by
  refine ⟨fun x0 y0 x1 y1 hsmall fuel hfuel => ?_, fun rect width height hfits => ?_, run_overlay_restore⟩
  · simp only [List.forall_mem_cons, List.not_mem_nil, false_implies, implies_true, and_true] at hsmall
    exact ⟨_, linePlots_eq (by omega) (by omega) (by omega) hfuel, linePoints_leadsTo x0 y0 x1 y1,
      fun format color => drawLine_eq format color x0 y0 x1 y1⟩
  · simp only [List.forall_mem_cons, List.not_mem_nil, false_implies, implies_true, and_true] at hfits
    apply clipRect_clips <;> omega

/-- A run that draws the cursor, moves it and redraws a region. -/
theorem lines_and_cursor_moved :
    (∃ points, linePlots 3 0 0 2 (-1) = .ok points ∧ LeadsTo 0 0 2 (-1) points ∧
      ∀ format color, drawLine format 0 0 2 (-1) color =
        seqAll (points.map fun p => putPixel format p.x p.y color)) ∧
    Clips ⟨-3, 700, 2 ^ 31 - 1, 40⟩ screenWidth screenHeight
      (clipRect ⟨-3, 700, 2 ^ 31 - 1, 40⟩ screenWidth screenHeight) ∧
    ∃ state shown hidden,
      run (initial ⟨⟨8, 16, 8, 8, 8, 0⟩, .initial, none, none, none, false, 0⟩ (fun _ => 0) true [])
        [.overlay, .mouse ⟨9, -4, true, false, false⟩, .update id [⟨600, 300, 80, 60⟩], .redraw] = some state ∧
      drawCursorOverlay state = some shown ∧ restoreCursor shown = some hidden ∧
      hidden.framebuffer =
        (Canvas.run ⟨⟨⟨8, 16, 8, 8, 8, 0⟩, .initial, none, none, none, false, 0⟩, .initial, fun _ => 0⟩
          [.overlay, .mouse ⟨9, -4, true, false, false⟩, .update id [⟨600, 300, 80, 60⟩], .redraw]).picture ∧
      (state.cursorDrawn = false → hidden.framebuffer = state.framebuffer) :=
  ⟨lines_and_cursor.1 0 0 2 (-1) (by decide) 3 (by decide),
    lines_and_cursor.2.1 ⟨-3, 700, 2 ^ 31 - 1, 40⟩ screenWidth screenHeight (by decide),
    lines_and_cursor.2.2 _ _ _ _ _⟩

/-- The first coordinate beyond the reach of every line. -/
theorem long_line_overflows : (357913942 : Int) < 2 ^ 29 ∧
    ∀ fuel ≥ 357913943, linePlots fuel (-357913942) 0 357913942 1 = .error .overflow :=
  ⟨by decide, fun _ hfuel => @linePlots_overflows 357913942 (by decide) (by decide) _ hfuel⟩

end Linux95.Gui
