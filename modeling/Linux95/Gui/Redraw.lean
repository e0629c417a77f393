import Linux95.Gui.Desktop
import Linux95.Gui.LineDrawing
import Linux95.Gui.WindowRuns

/-! The redraw of a region as the repaint of a picture of layers. A window is three layers, its
chrome, the application's content and its border; the panel's controls and the open menu are above
all windows. A layer is drawn as a whole as soon as it meets the dirty region. -/

namespace Linux95.Gui
open Base Base.Drawing

def inRect (rect : Rect) : Set Pixel := { p | contains rect p.1 = true }

theorem mem_inRect {rect : Rect} {p : Pixel} :
    p ∈ inRect rect ↔ rect.x ≤ p.1.x ∧ rect.y ≤ p.1.y ∧ p.1.x < rect.x + rect.width ∧
      p.1.y < rect.y + rect.height := contains_iff

def repainted (rect : Rect) : Set Pixel := inRect (clipToScreen rect)

def Rect.FitsInt32 (rect : Rect) : Prop :=
  (-2 ^ 31 ≤ rect.x + rect.width ∧ rect.x + rect.width < 2 ^ 31) ∧
    -2 ^ 31 ≤ rect.y + rect.height ∧ rect.y + rect.height < 2 ^ 31

instance (rect : Rect) : Decidable rect.FitsInt32 := inferInstanceAs (Decidable (_ ∧ _))

section Routines
variable {format : PixelFormat} {color : Color}

theorem putPixel_within {x y : Int} {s : Set Pixel} (h : ∀ p : Pixel, p.1 = ⟨x, y⟩ → p ∈ s) :
    (putPixel format x y color).Within s := by
  intro p hp
  unfold putPixel at hp
  split_ifs at hp with heq
  · exact h p heq
  · exact absurd rfl hp

theorem fillRect_eq (rect : Rect) (p : Pixel) :
    fillRect format rect color p =
      if contains rect p.1 then some (packColor format color) else none := by
  obtain ⟨hx, hx', hy, hy'⟩ := p.2
  have hclip : contains rect p.1 = true ↔ contains (clipRect rect screenWidth screenHeight) p.1 = true := by
    rw [(clipRect_clips (by decide) (by decide)).exact]
    exact ⟨fun hin => ⟨hin, ⟨hx, hx'⟩, hy, hy'⟩, And.left⟩
  rw [@contains_iff (clipRect rect screenWidth screenHeight)] at hclip
  unfold fillRect
  generalize clipRect rect screenWidth screenHeight = clipped at hclip
  split_ifs with hin
  · obtain ⟨h₁, h₂, h₃, h₄⟩ := hclip.mp hin
    apply seqAll_of_const
    · intro a ha
      simp only [List.mem_flatMap, List.mem_map] at ha
      obtain ⟨y, -, x, -, rfl⟩ := ha
      unfold putPixel
      split_ifs
      · exact Or.inr rfl
      · exact Or.inl rfl
    · refine ⟨putPixel format (clipped.x + (p.1.x - clipped.x).toNat)
        (clipped.y + (p.1.y - clipped.y).toNat) color, ?_, ?_⟩
      · simp only [List.mem_flatMap, List.mem_map, List.mem_range]
        exact ⟨(p.1.y - clipped.y).toNat, by omega, (p.1.x - clipped.x).toNat, by omega, rfl⟩
      · have hpoint : p.1 = ⟨clipped.x + (p.1.x - clipped.x).toNat,
            clipped.y + (p.1.y - clipped.y).toNat⟩ := by
          have h₅ : clipped.x + ((p.1.x - clipped.x).toNat : Int) = p.1.x := by omega
          have h₆ : clipped.y + ((p.1.y - clipped.y).toNat : Int) = p.1.y := by omega
          rw [h₅, h₆]
        unfold putPixel
        rw [if_pos hpoint]
  · apply seqAll_eq_none.mpr
    intro a ha
    simp only [List.mem_flatMap, List.mem_map, List.mem_range] at ha
    obtain ⟨y, hy, x, hx, rfl⟩ := ha
    unfold putPixel
    rw [if_neg]
    intro hpoint
    apply hin
    rw [hclip, hpoint]
    dsimp only
    omega

theorem fillRect_within {rect : Rect} {s : Set Pixel} (h : inRect rect ⊆ s) :
    (fillRect format rect color).Within s := by
  intro p hp
  rw [fillRect_eq] at hp
  split_ifs at hp with hin
  · exact h hin
  · exact absurd rfl hp

def edge (rect : Rect) : Set Pixel :=
  { p | p ∈ inRect rect ∧ (p.1.x = rect.x ∨ p.1.y = rect.y ∨ p.1.x = rect.x + rect.width - 1 ∨
    p.1.y = rect.y + rect.height - 1) }

theorem drawRect_within (rect : Rect) : (drawRect format rect color).Within (edge rect) := by
  unfold drawRect
  split_ifs with hempty
  · exact within_nothing
  · have hwidth : rect.x ≤ rect.x + rect.width - 1 := by omega
    have hheight : rect.y ≤ rect.y + rect.height - 1 := by omega
    dsimp only
    apply Within.seqAll
    simp only [List.forall_mem_cons, List.not_mem_nil, false_implies, implies_true, and_true]
    refine ⟨drawLine_within ?_, drawLine_within ?_, drawLine_within ?_, drawLine_within ?_⟩
    all_goals
      intro p hleft hright htop hbottom
      rw [edge, Set.mem_ofPred_eq, mem_inRect]
      omega

theorem drawRect_edge {rect : Rect} {p : Pixel} (hp : p ∈ edge rect) :
    drawRect format rect color p = some (packColor format color) := by
  obtain ⟨hin, hedge⟩ := hp
  obtain ⟨hx, hy, hx', hy'⟩ := mem_inRect.mp hin
  have hconst : ∀ x0 y0 x1 y1, drawLine format x0 y0 x1 y1 color p = none ∨
      drawLine format x0 y0 x1 y1 color p = some (packColor format color) := by
    intro x0 y0 x1 y1
    rw [drawLine_apply]
    split_ifs
    · exact Or.inr rfl
    · exact Or.inl rfl
  have hpaints : ∀ {x0 y0 x1 y1}, p.1 ∈ linePoints x0 y0 x1 y1 →
      drawLine format x0 y0 x1 y1 color p = some (packColor format color) := by
    intro x0 y0 x1 y1 hpoint
    rw [drawLine_apply, if_pos hpoint]
  have hlast : p.1.x ≤ rect.x + rect.width - 1 ∧ p.1.y ≤ rect.y + rect.height - 1 := by omega
  have hlevel : p.1 ∈ linePoints rect.x p.1.y (rect.x + rect.width - 1) p.1.y := mem_linePoints_level hx hlast.1
  have hupright : p.1 ∈ linePoints p.1.x rect.y p.1.x (rect.y + rect.height - 1) :=
    mem_linePoints_upright hy hlast.2
  unfold drawRect
  rw [if_neg (by omega)]
  apply seqAll_of_const
  · simp only [List.forall_mem_cons, List.not_mem_nil, false_implies, implies_true, and_true]
    exact ⟨hconst _ _ _ _, hconst _ _ _ _, hconst _ _ _ _, hconst _ _ _ _⟩
  · simp only [List.exists_mem_cons_iff]
    rcases hedge with hleft | htop | hright | hbottom
    · exact Or.inr (Or.inr (Or.inl (hpaints (hleft ▸ hupright))))
    · exact Or.inl (hpaints (htop ▸ hlevel))
    · exact Or.inr (Or.inr (Or.inr (Or.inl (hpaints (hright ▸ hupright)))))
    · exact Or.inr (Or.inl (hpaints (hbottom ▸ hlevel)))

theorem drawRect_within_rect {rect : Rect} {s : Set Pixel} (h : inRect rect ⊆ s) :
    (drawRect format rect color).Within s := (drawRect_within rect).mono fun _ hp => h hp.1

theorem drawChar_within (x y : Int) (c : Char) :
    (drawChar format x y c color).Within (inRect ⟨x, y, 8, 8⟩) := by
  unfold drawChar
  dsimp only
  generalize font8x8.getD _ [] = rows
  apply Within.seqAll
  intro a ha
  simp only [List.mem_flatMap, List.mem_map, List.mem_range] at ha
  obtain ⟨row, hrow, column, hcolumn, rfl⟩ := ha
  split_ifs
  · apply putPixel_within
    intro p hp
    rw [mem_inRect, hp]
    dsimp only
    omega
  · exact within_nothing

theorem drawText_within {x y : Int} {text : List Char} (hline : '\n' ∉ text) {s : Set Pixel}
    (h : inRect ⟨x, y, 8 * text.length, 8⟩ ⊆ s) : (drawText format x y text color).Within s := by
  have hfrom : ∀ (text : List Char) (initialX x : Int), '\n' ∉ text →
      (drawTextFrom format initialX color x y text).Within (inRect ⟨x, y, 8 * text.length, 8⟩) := by
    intro text initialX
    induction text with
    | nil => exact fun _ _ => within_nothing
    | cons c text ih =>
      intro x hline
      have hc : c ≠ '\n' := fun hc => hline (by rw [hc]; exact List.mem_cons_self)
      have hrest : '\n' ∉ text := fun hmem => hline (List.mem_cons_of_mem c hmem)
      unfold drawTextFrom
      rw [if_neg hc]
      apply Within.seq
      · refine (drawChar_within x y c).mono ?_
        intro p hp
        rw [mem_inRect] at hp ⊢
        simp only [List.length_cons] at hp ⊢
        omega
      · refine (ih (x + 8) hrest).mono ?_
        intro p hp
        rw [mem_inRect] at hp ⊢
        simp only [List.length_cons] at hp ⊢
        omega
  exact (hfrom text x x hline).mono h

end Routines

section Regions

theorem int32_of_fits {n : Int} (h : -2 ^ 31 ≤ n ∧ n < 2 ^ 31) : int32 n = n := by
  unfold int32 Int.bmod
  dsimp only
  omega

theorem int32_of_small {n : Int} (h : 0 ≤ n) (h' : n ≤ screenWidth) : int32 n = n := by
  unfold screenWidth at h'
  exact int32_of_fits (by omega)

theorem clipToScreen_mem (rect : Rect) :
    0 ≤ (clipToScreen rect).x ∧ 0 ≤ (clipToScreen rect).y ∧ 0 ≤ (clipToScreen rect).width ∧
      0 ≤ (clipToScreen rect).height ∧
      (clipToScreen rect).x + (clipToScreen rect).width ≤ screenWidth ∧
      (clipToScreen rect).y + (clipToScreen rect).height ≤ screenHeight := by
  have hwidth : int32 (0 + 1280) = 1280 := by decide
  have hheight : int32 (0 + 720) = 720 := by decide
  unfold clipToScreen intersection screen screenWidth screenHeight
  dsimp only
  rw [hwidth, hheight]
  split_ifs <;> dsimp only <;> omega

theorem repainted_eq {rect : Rect} (hfits : rect.FitsInt32) : repainted rect = inRect rect := by
  have hwidth : int32 (0 + 1280) = 1280 := by decide
  have hheight : int32 (0 + 720) = 720 := by decide
  ext p
  obtain ⟨hx, hx', hy, hy'⟩ := p.2
  rw [repainted, mem_inRect, mem_inRect]
  unfold clipToScreen intersection screen
  unfold screenWidth screenHeight at *
  dsimp only
  rw [hwidth, hheight, int32_of_fits hfits.1, int32_of_fits hfits.2]
  split_ifs <;> dsimp only <;> omega

/-- A rectangle of `int32_t` fields whose edges are too far right or down is not repainted at all. -/
theorem repainted_of_overflow {rect : Rect} (hx : rect.x < 2 ^ 31 ∧ rect.width < 2 ^ 31)
    (hy : rect.y < 2 ^ 31 ∧ rect.height < 2 ^ 31)
    (hover : 2 ^ 31 ≤ rect.x + rect.width ∨ 2 ^ 31 ≤ rect.y + rect.height) : repainted rect = ∅ := by
  have hwrap : ∀ n : Int, 2 ^ 31 ≤ n → n < 2 ^ 32 → int32 n < 0 := by
    intro n hn hn'
    unfold int32 Int.bmod
    dsimp only
    omega
  refine Set.eq_empty_of_forall_notMem fun p hp => ?_
  rw [repainted, mem_inRect] at hp
  obtain ⟨hpx, hpx', hpy, hpy'⟩ := p.2
  revert hp
  unfold clipToScreen intersection screen
  dsimp only
  rcases hover with hover | hover
  · have := hwrap _ hover (by omega)
    split_ifs <;> dsimp only <;> omega
  · have := hwrap _ hover (by omega)
    split_ifs <;> dsimp only <;> omega

theorem intersects_iff {a b : Rect} (hx : 0 ≤ b.x) (hy : 0 ≤ b.y) (hx' : b.x + b.width ≤ screenWidth)
    (hy' : b.y + b.height ≤ screenHeight) :
    intersects a b = true ↔ (inRect a ∩ inRect b).Nonempty := by
  simp only [intersects, Bool.and_eq_true, decide_eq_true_eq, and_assoc]
  constructor
  · rintro ⟨h₁, h₂, h₃, h₄, h₅, h₆, h₇, h₈⟩
    have hon : OnScreen ⟨max a.x b.x, max a.y b.y⟩ := by
      unfold OnScreen
      dsimp only
      omega
    refine ⟨⟨⟨max a.x b.x, max a.y b.y⟩, hon⟩, ?_, ?_⟩ <;>
    · rw [mem_inRect]
      dsimp only
      omega
  · rintro ⟨p, hpa, hpb⟩
    rw [mem_inRect] at hpa hpb
    omega

theorem intersects_clip (a rect : Rect) :
    intersects a (clipToScreen rect) = true ↔ (inRect a ∩ repainted rect).Nonempty := by
  obtain ⟨hx, hy, -, -, hx', hy'⟩ := clipToScreen_mem rect
  exact intersects_iff hx hy hx' hy'

end Regions

namespace RuntimeState

section Layers
variable (state : RuntimeState)

def windowLayers (window : Window) : List (Layer Pixel UInt32) :=
  [⟨inRect window.bounds, drawChrome state window⟩,
    ⟨inRect (contentRect window.bounds), drawContent state window⟩,
    ⟨inRect window.bounds, drawRect state.format window.bounds black⟩]

/-- The open windows from the lowest up, the panel's controls, and the menu when it is open. -/
def layers : List (Layer Pixel UInt32) :=
  ((state.windows.openWindowsInZOrder maxWindows).flatMap fun i =>
      windowLayers state (state.windows.windows i)) ++
    ⟨inRect panel, drawControls state⟩ ::
      if state.menuOpen then [⟨inRect menuBounds, drawMenu state⟩] else []

def background (p : Pixel) : UInt32 :=
  packColor state.format (if p.1.y < panelHeight then panelColor else desktopColor)

end Layers

section Confined
variable {state : RuntimeState} {window : Window} {s : Set Pixel}

theorem titleFor_line (id : WindowId) : '\n' ∉ titleFor id ∧ (titleFor id).length ≤ 12 := by
  unfold titleFor
  split_ifs <;> decide

theorem drawChromeButton_within {format : PixelFormat} {button : Rect} {label : List Char}
    (hline : '\n' ∉ label) (hbutton : inRect button ⊆ s)
    (hlabel : inRect ⟨button.x + 6, button.y + 5, 8 * label.length, 8⟩ ⊆ s) :
    (drawChromeButton format button label).Within s := by
  unfold drawChromeButton
  apply Within.seqAll
  simp only [List.forall_mem_cons, List.not_mem_nil, false_implies, implies_true, and_true]
  exact ⟨fillRect_within hbutton, drawRect_within_rect hbutton, drawText_within hline hlabel⟩

theorem drawChrome_eq (state : RuntimeState) (hfits : window.bounds.Fits) :
    ∃ titleBar : Painting,
      drawChrome state window = seq (fillRect state.format window.bounds windowFrame) titleBar ∧
      titleBar.Within (inRect ⟨window.bounds.x, window.bounds.y, window.bounds.width,
        titleBarHeight⟩) := by
  obtain ⟨hw, hh, -, -, -, -⟩ := hfits
  obtain ⟨hline, hlength⟩ := titleFor_line window.id
  unfold minWidth at hw
  refine ⟨_, rfl, ?_⟩
  unfold titleBarHeight chromeButtonWidth chromeButtonHeight
  dsimp only
  apply Within.seqAll
  simp only [List.forall_mem_cons, List.not_mem_nil, false_implies, implies_true, and_true]
  refine ⟨fillRect_within subset_rfl, drawText_within hline ?_,
    drawChromeButton_within (by decide) ?_ ?_, ?_⟩
  · intro p hp
    rw [mem_inRect] at hp ⊢
    dsimp only at hp ⊢
    omega
  · intro p hp
    rw [mem_inRect] at hp ⊢
    dsimp only at hp ⊢
    omega
  · intro p hp
    rw [mem_inRect] at hp ⊢
    simp only [String.reduceToList, List.length_cons, List.length_nil] at hp ⊢
    omega
  · split_ifs
    · refine drawChromeButton_within (by decide) ?_ ?_
      · intro p hp
        rw [mem_inRect] at hp ⊢
        dsimp only at hp ⊢
        omega
      · intro p hp
        rw [mem_inRect] at hp ⊢
        simp only [String.reduceToList, List.length_cons, List.length_nil] at hp ⊢
        omega
    · exact within_nothing

theorem drawChrome_within (hfits : window.bounds.Fits) :
    (drawChrome state window).Within (inRect window.bounds) := by
  obtain ⟨titleBar, heq, hwithin⟩ := drawChrome_eq state hfits
  have hh := hfits.height
  unfold minHeight at hh
  rw [heq]
  refine (fillRect_within subset_rfl).seq (hwithin.mono ?_)
  intro p hp
  rw [mem_inRect] at hp ⊢
  unfold titleBarHeight at hp
  dsimp only at hp
  omega

theorem drawContent_within : (drawContent state window).Within (inRect (contentRect window.bounds)) := by
  unfold drawContent
  split
  · exact within_nothing
  · exact AppDrawing.within _ _

theorem drawText_panel {format : PixelFormat} {color : Color} {x y : Int} {text : List Char}
    (hline : '\n' ∉ text) (hy : y + 8 ≤ panelHeight) :
    (drawText format x y text color).Within (inRect panel) := by
  -- a text on one line of the panel stays in the panel: what sticks out of it is off the screen
  apply drawText_within hline
  intro p hp
  obtain ⟨hpx, hpx', hpy, hpy'⟩ := p.2
  rw [mem_inRect] at hp ⊢
  unfold panel
  dsimp only at hp ⊢
  omega

theorem drawTaskButton_within (id : WindowId) (slot : Nat) :
    (drawTaskButton state id slot).Within (inRect panel) := by
  have hbutton : inRect (taskButtonBounds slot) ⊆ inRect panel := by
    intro p hp
    obtain ⟨hpx, hpx', hpy, hpy'⟩ := p.2
    rw [mem_inRect] at hp ⊢
    unfold panel panelHeight
    unfold taskButtonBounds taskButtonHeight taskButtonWidth at hp
    dsimp only at hp ⊢
    omega
  have hrow : (taskButtonBounds slot).y + 8 + 8 ≤ panelHeight := show (2 : Int) + 8 + 8 ≤ 28 by decide
  unfold drawTaskButton
  split
  · exact within_nothing
  · dsimp only
    apply Within.seqAll
    simp only [List.forall_mem_cons, List.not_mem_nil, false_implies, implies_true, and_true]
    exact ⟨fillRect_within hbutton, drawRect_within_rect hbutton,
      drawText_panel (titleFor_line id).1 hrow⟩

theorem drawTaskButtons_within (slot : Nat) (ids : List WindowId) :
    (drawTaskButtons state slot ids).Within (inRect panel) := by
  induction ids generalizing slot with
  | nil => exact within_nothing
  | cons id ids ih =>
    unfold drawTaskButtons
    split_ifs
    · exact (drawTaskButton_within id slot).seq (ih (slot + 1))
    · exact ih slot

theorem reversedDigits_line (room value : Nat) : '\n' ∉ reversedDigits room value := by
  have hdigit : ∀ digit, digit < 10 → Char.ofNat ('0'.toNat + digit) ≠ '\n' := by decide
  induction room generalizing value with
  | zero => exact List.not_mem_nil
  | succ room ih =>
    unfold reversedDigits
    intro hmem
    rcases List.mem_cons.mp hmem with heq | hrest
    · exact hdigit (value % 10) (Nat.mod_lt _ (by decide)) heq.symm
    · split_ifs at hrest
      · cases hrest
      · exact ih _ hrest

theorem formatU64_line (value capacity : Nat) : '\n' ∉ formatU64 value capacity := by
  intro hmem
  exact reversedDigits_line 21 value (List.mem_reverse.mp (List.mem_of_mem_take hmem))

theorem drawControls_within : (drawControls state).Within (inRect panel) := by
  unfold drawControls
  apply Within.seqAll
  simp only [List.forall_mem_cons, List.not_mem_nil, false_implies, implies_true, and_true]
  exact ⟨drawText_panel (by decide) (by decide),
    drawText_panel (by decide) (by decide),
    drawText_panel (by decide) (by decide), drawTaskButtons_within _ _,
    drawText_panel (by decide) (by decide),
    drawText_panel (formatU64_line _ _) (by decide),
    drawText_panel (by decide) (by decide)⟩

theorem drawMenu_within : (drawMenu state).Within (inRect menuBounds) := by
  have htext : ∀ (y : Int) (text : List Char), '\n' ∉ text → text.length ≤ 12 → 0 ≤ y → y ≤ 60 →
      (drawText state.format (menuBounds.x + 8) (menuBounds.y + y) text black).Within
        (inRect menuBounds) := by
    intro y text hline hlength hy hy'
    apply drawText_within hline
    intro p hp
    rw [mem_inRect] at hp ⊢
    unfold menuBounds menuWidth menuItemHeight menuItemCount panelHeight at hp ⊢
    dsimp only at hp ⊢
    omega
  have hline : ∀ y : Int, 0 ≤ y → y ≤ 60 →
      (drawLine state.format menuBounds.x (menuBounds.y + y) (menuBounds.x + menuBounds.width - 1)
        (menuBounds.y + y) panelDark).Within (inRect menuBounds) := by
    intro y hy hy'
    apply drawLine_within
    intro p hleft hright htop hbottom
    rw [mem_inRect]
    unfold menuBounds menuWidth menuItemHeight menuItemCount panelHeight at *
    dsimp only at *
    omega
  unfold drawMenu
  dsimp only
  apply Within.seqAll
  simp only [List.forall_mem_cons, List.not_mem_nil, false_implies, implies_true, and_true]
  refine ⟨fillRect_within subset_rfl, drawRect_within_rect subset_rfl,
    htext 8 _ (by decide) (by decide) (by decide) (by decide), hline 24 (by decide) (by decide), ?_,
    hline 48 (by decide) (by decide), ?_⟩
  · have h := htext 32 "System Info".toList (by decide) (by decide) (by decide) (by decide)
    exact h
  · have h := htext 56 "File Manager".toList (by decide) (by decide) (by decide) (by decide)
    exact h

end Confined

section Repaint
variable {state : RuntimeState}

def Placed (state : RuntimeState) : Prop :=
  ∀ i ∈ state.windows.openWindowsInZOrder maxWindows,
    (state.windows.windows i).state = .opened ∧ (state.windows.windows i).bounds.Fits

theorem layers_confined (hplaced : Placed state) : ∀ l ∈ layers state, l.Confined := by
  intro l hl
  unfold layers at hl
  unfold Layer.Confined
  rcases List.mem_append.mp hl with hwindow | hpanel
  · obtain ⟨i, hi, hl⟩ := List.mem_flatMap.mp hwindow
    obtain ⟨-, hfits⟩ := hplaced i hi
    simp only [windowLayers, List.mem_cons, List.not_mem_nil, or_false] at hl
    rcases hl with rfl | rfl | rfl
    · exact drawChrome_within hfits
    · exact drawContent_within
    · exact drawRect_within_rect subset_rfl
  · rcases List.mem_cons.mp hpanel with rfl | hmenu
    · exact drawControls_within
    · have hmenu : l = ⟨inRect menuBounds, drawMenu state⟩ := by
        split_ifs at hmenu
        · exact List.mem_singleton.mp hmenu
        · cases hmenu
      rw [hmenu]
      dsimp only
      exact drawMenu_within

theorem top_layersOn_singleton (region rect : Rect) (a : Painting) (p : Pixel) :
    top (layersOn [⟨inRect region, a⟩] (repainted rect)) p =
      (if intersects region (clipToScreen rect) then a else nothing) p := by
  by_cases hmeet : intersects region (clipToScreen rect) = true
  · rw [top_layersOn_cons_of_meets ((intersects_clip _ _).mp hmeet), if_pos hmeet]
    rfl
  · rw [top_layersOn_cons_of_not_meets (fun h => hmeet ((intersects_clip _ _).mpr h)),
      if_neg hmeet]
    rfl

theorem drawWindow_eq {window : Window} (hopen : window.state = .opened) (rect : Rect) (p : Pixel) :
    drawWindow state window (clipToScreen rect) p =
      top (layersOn (windowLayers state window) (repainted rect)) p := by
  have hsplit : windowLayers state window = [⟨inRect window.bounds, drawChrome state window⟩] ++
      ([⟨inRect (contentRect window.bounds), drawContent state window⟩] ++
        [⟨inRect window.bounds, drawRect state.format window.bounds black⟩]) := rfl
  rw [hsplit, top_layersOn_append, top_layersOn_append, top_layersOn_singleton,
    top_layersOn_singleton, top_layersOn_singleton]
  unfold drawWindow
  rw [if_neg (by simpa using hopen)]
  by_cases hmeet : intersects window.bounds (clipToScreen rect) = true
  · rw [hmeet, if_neg (by decide), seqAll_cons, seqAll_cons, seqAll_cons]
    rfl
  · have hcontent : ¬ intersects (contentRect window.bounds) (clipToScreen rect) = true := by
      intro h
      obtain ⟨q, hq, hq'⟩ := (intersects_clip _ _).mp h
      refine hmeet ((intersects_clip _ _).mpr ⟨q, ?_, hq'⟩)
      rw [mem_inRect] at hq ⊢
      unfold contentRect titleBarHeight at hq
      dsimp only at hq
      omega
    rw [if_pos (by simpa using hmeet), if_neg hmeet, if_neg hcontent, if_neg hmeet]
    rfl

theorem drawWindows_eq (rect : Rect) (p : Pixel) (order : List Slot)
    (hopen : ∀ i ∈ order, (state.windows.windows i).state = .opened) :
    seqAll (order.map fun i => drawWindow state (state.windows.windows i) (clipToScreen rect)) p =
      top (layersOn (order.flatMap fun i => windowLayers state (state.windows.windows i))
        (repainted rect)) p := by
  induction order with
  | nil => rfl
  | cons i order ih =>
    have ih := ih fun j hj => hopen j (List.mem_cons_of_mem i hj)
    rw [List.map_cons, seqAll_cons, ih, List.flatMap_cons, top_layersOn_append,
      drawWindow_eq (hopen i List.mem_cons_self)]

theorem drawPanel_eq (rect : Rect) (p : Pixel) :
    drawPanel state (clipToScreen rect) p =
      top (layersOn (⟨inRect panel, drawControls state⟩ ::
        if state.menuOpen then [⟨inRect menuBounds, drawMenu state⟩] else []) (repainted rect)) p := by
  rw [← List.singleton_append, top_layersOn_append, top_layersOn_singleton]
  unfold drawPanel
  rw [seq_apply]
  cases state.menuOpen with
  | false => rfl
  | true => rw [if_pos rfl, top_layersOn_singleton, Bool.true_and]

theorem fillBackground_eq (state : RuntimeState) (rect : Rect) (p : Pixel) :
    ((if (intersection (clipToScreen rect) panel).width > 0 ∧
        (intersection (clipToScreen rect) panel).height > 0 then
        fillRect state.format (intersection (clipToScreen rect) panel) panelColor
      else nothing) p).or (fillRect state.format (clipToScreen rect) desktopColor p) =
      if contains (clipToScreen rect) p.1 then some (background state p) else none := by
  obtain ⟨hx, hy, hw, hh, hx', hy'⟩ := clipToScreen_mem rect
  obtain ⟨hpx, hpx', hpy, hpy'⟩ := p.2
  generalize clipToScreen rect = dirty at *
  have hlarge : screenHeight ≤ screenWidth := by decide
  have hwidth : int32 (0 + screenWidth) = screenWidth := by decide
  have hheight : int32 (0 + panelHeight) = panelHeight := by decide
  have hright : int32 (dirty.x + dirty.width) = dirty.x + dirty.width :=
    int32_of_small (by omega) hx'
  have hbottom : int32 (dirty.y + dirty.height) = dirty.y + dirty.height :=
    int32_of_small (by omega) (by omega)
  have hpanel : contains (intersection dirty panel) p.1 = true ↔
      contains dirty p.1 = true ∧ p.1.y < panelHeight := by
    have h₁ := @mem_inRect (intersection dirty panel) p
    have h₂ := @mem_inRect dirty p
    simp only [inRect, Set.mem_ofPred_eq] at h₁ h₂
    rw [h₁, h₂]
    unfold intersection panel
    dsimp only
    rw [hwidth, hheight, hright, hbottom]
    unfold panelHeight
    split_ifs <;> dsimp only <;> omega
  have hskip : ¬ ((intersection dirty panel).width > 0 ∧ (intersection dirty panel).height > 0) →
      contains (intersection dirty panel) p.1 = false := by
    intro h
    have h₁ := @mem_inRect (intersection dirty panel) p
    simp only [inRect, Set.mem_ofPred_eq] at h₁
    rw [Bool.eq_false_iff]
    intro hin
    have := h₁.mp hin
    omega
  have hfill : (if (intersection dirty panel).width > 0 ∧ (intersection dirty panel).height > 0 then
      fillRect state.format (intersection dirty panel) panelColor else nothing) p =
        if contains (intersection dirty panel) p.1 then some (packColor state.format panelColor)
        else none := by
    by_cases hnonempty : (intersection dirty panel).width > 0 ∧ (intersection dirty panel).height > 0
    · rw [if_pos hnonempty, fillRect_eq]
    · rw [if_neg hnonempty, hskip hnonempty]
      rfl
  rw [hfill, fillRect_eq]
  unfold background
  by_cases hin : contains dirty p.1 = true
  · by_cases hrow : p.1.y < panelHeight
    · rw [if_pos (hpanel.mpr ⟨hin, hrow⟩), if_pos hin, if_pos hin, if_pos hrow]
      rfl
    · rw [if_neg (fun h => hrow (hpanel.mp h).2), if_pos hin, if_pos hin, if_neg hrow]
      rfl
  · rw [if_neg (fun h => hin (hpanel.mp h).1), if_neg hin, if_neg hin]
    rfl

theorem redrawRegion_eq (hplaced : Placed state) (rect : Rect) :
    redrawRegion state rect = repaint (background state) (layers state) (repainted rect) := by
  funext p
  have hbackground := fillBackground_eq state rect p
  have hmem : contains (clipToScreen rect) p.1 = true ↔ p ∈ repainted rect := Iff.rfl
  unfold redrawRegion
  dsimp only
  by_cases hempty : (clipToScreen rect).width ≤ 0 ∨ (clipToScreen rect).height ≤ 0
  · have hnothing : ∀ q, q ∉ repainted rect := by
      intro q hq
      rw [repainted, mem_inRect] at hq
      omega
    have hunreached : ¬ Reaches (layers state) (repainted rect) p := by
      rintro (hp | hp)
      · exact hnothing p hp
      · rw [layersOn_of_empty hnothing] at hp
        exact hp rfl
    rw [if_pos hempty, repaint_eq_none hunreached]
    rfl
  · unfold repaint layers
    rw [if_neg hempty, seqAll_cons, seqAll_cons, seqAll_cons, seqAll_cons, seq_apply,
      top_layersOn_append, drawWindows_eq rect p _ fun i hi => (hplaced i hi).1, drawPanel_eq,
      Option.or_assoc, Option.or_assoc, hbackground]
    have hnone : ∀ a : Option UInt32, (seqAll [] p : Option UInt32).or a = a := fun a => rfl
    by_cases hp : p ∈ repainted rect
    · rw [if_pos (hmem.mpr hp), if_pos hp, hnone, Option.or_assoc]
    · rw [if_neg (fun h => hp (hmem.mp h)), if_neg hp, hnone, Option.or_assoc]

theorem redrawAll_eq (hplaced : Placed state) (dirty : List Rect) (framebuffer : Framebuffer) :
    redrawAll state dirty framebuffer =
      repaintAll (background state) (layers state) repainted dirty framebuffer := by
  unfold redrawAll repaintAll
  congr 1
  funext image rect
  rw [redrawRegion_eq hplaced]

theorem mem_repainted_screen (p : Pixel) : p ∈ repainted screen := by
  obtain ⟨hx, hx', hy, hy'⟩ := p.2
  rw [repainted_eq (by decide), mem_inRect]
  unfold screen
  dsimp only
  omega

theorem redrawScreen_eq (hplaced : Placed state) (framebuffer : Framebuffer) (p : Pixel) :
    (redrawRegion state screen).apply framebuffer p = picture (background state) (layers state) p := by
  rw [redrawRegion_eq hplaced, Drawing.apply,
    repaint_of_mem (layers_confined hplaced) (mem_repainted_screen p), Option.getD_some]

theorem placed_run {ops : List Op} (h : state.windows = WindowManager.initial.run ops) :
    Placed state := by
  have hinv : WindowManager.Inv state.windows := by
    rw [h]
    exact WindowManager.inv_initial.run ops
  intro i hi
  have hopen := ((state.windows.openWindowsInZOrder_spec le_rfl).1 i).mp hi
  have hstate : (state.windows.windows i).state = .opened := of_decide_eq_true hopen
  refine ⟨hstate, hinv.fits i ?_⟩
  unfold Windows.live
  rw [hstate]
  rfl

end Repaint

end RuntimeState

end Linux95.Gui
