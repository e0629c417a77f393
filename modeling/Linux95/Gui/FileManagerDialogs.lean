import Linux95.Gui.FileManagerApp

/-! The dialogs of the file manager over whole histories of events: what is deleted or renamed is
what was selected when the dialog was opened. -/

namespace Linux95.Gui.FileManager
open Storage Fat32 Input

def mutations (calls : List VfsCall) : List VfsCall := calls.filter VfsCall.isMutation

def Chosen (m : Model) (target : CString) : Prop :=
  ∃ i entry, m.selectedIndex = some i ∧ m.entries[i]? = some entry ∧
    buildChildPath m.path entry.name = some target

/-- The dialog was opened with the model `m` on display. Since then it has neither been cancelled
nor confirmed with success, and neither the directory shown nor the selection has changed. -/
inductive Session : List (Event × Replies) → DialogMode → PendingOperation → Model → Prop
  | opened {history : List (Event × Replies)} {e : Event × Replies}
      (hbefore : (desk history).app.dialog = .none)
      (hopen : (desk (history ++ [e])).app.dialog ≠ .none) :
      Session (history ++ [e]) (desk (history ++ [e])).app.dialog
        (desk (history ++ [e])).app.pending (desk (history ++ [e])).app.model
  | kept {history : List (Event × Replies)} {e : Event × Replies} {dialog : DialogMode}
      {pending : PendingOperation} {m : Model} (h : Session history dialog pending m)
      (hdialog : (desk (history ++ [e])).app.dialog = dialog)
      (hpending : (desk (history ++ [e])).app.pending = pending)
      (hmodel : (desk (history ++ [e])).app.model = m) :
      Session (history ++ [e]) dialog pending m

/-- The event confirms the dialog that is open: the Enter key, or a click on its first button. -/
def Desk.confirms (s : Desk) : Event → Bool
  | .key event => s.shown && s.app.dialog ≠ .none && event.pressed && event.key = .enter
  | .mouse event =>
    s.shown && s.app.dialog ≠ .none && event.leftPressed &&
      App.inside (layout ⟨0, 0, s.app.contentWidth, s.app.contentHeight⟩ s.app.model.view).deleteButton
        event
  | _ => false

/-- The event cancels the dialog that is open: the Escape key, a click on its second button, or the closing of
the window. -/
def Desk.cancels (s : Desk) : Event → Bool
  | .key event => s.shown && s.app.dialog ≠ .none && event.pressed && event.key = .escape
  | .mouse event =>
    let areas := layout ⟨0, 0, s.app.contentWidth, s.app.contentHeight⟩ s.app.model.view
    s.shown && s.app.dialog ≠ .none && event.leftPressed && s.app.contentWidth > 0 && s.app.contentHeight > 0 &&
      !App.inside areas.deleteButton event && App.inside areas.cancelButton event
  | .close => true
  | _ => false

section Mutations
variable {m : Model} {r : Replies}

theorem mutations_quiet {calls : List VfsCall} (h : ∀ call ∈ calls, call.isMutation = false) :
    mutations calls = [] := by
  unfold mutations
  rw [List.filter_eq_nil_iff]
  intro call hcall
  rw [h call hcall]
  exact Bool.false_ne_true

theorem mutations_loadPath (candidate : CString) : mutations (m.loadPath r candidate).calls = [] :=
  mutations_quiet (loadPath_cases m r candidate).2.1

theorem mutations_mutate {call : VfsCall} (h : call.isMutation = true) (status : Status)
    (name : Option CString) : mutations (m.mutate r call status name).calls = [call] := by
  have hrefresh : mutations (m.refresh r).calls = [] := mutations_loadPath m.path
  have hcons : mutations (call :: (m.refresh r).calls) = [call] := by
    unfold mutations at hrefresh ⊢
    rw [List.filter_cons_of_pos h, hrefresh]
  unfold Model.mutate
  split_ifs
  · unfold mutations
    rw [List.filter_cons_of_pos h]
    rfl
  · dsimp only
    cases name with
    | none => exact hcons
    | some name =>
      dsimp only
      split_ifs <;> exact hcons

theorem mutations_createFolder (name : Option CString) :
    mutations (m.createFolder r name).calls = [] ∨
      ∃ path, mutations (m.createFolder r name).calls = [.mkdir path] := by
  cases name with
  | none => exact Or.inl rfl
  | some name =>
    unfold Model.createFolder
    dsimp only
    by_cases hname : validateName (some name) = .ok
    swap
    · rw [if_pos hname]
      exact Or.inl rfl
    · rw [if_neg (not_not.mpr hname)]
      cases buildChildPath m.path name with
      | none => exact Or.inl rfl
      | some destination => exact Or.inr ⟨destination, mutations_mutate rfl _ _⟩

theorem mutations_createFile (name : Option CString) :
    mutations (m.createFile r name).calls = [] ∨
      ∃ path, mutations (m.createFile r name).calls = [.touch path] := by
  cases name with
  | none => exact Or.inl rfl
  | some name =>
    unfold Model.createFile
    dsimp only
    by_cases hname : validateName (some name) = .ok
    swap
    · rw [if_pos hname]
      exact Or.inl rfl
    · rw [if_neg (not_not.mpr hname)]
      cases buildChildPath m.path name with
      | none => exact Or.inl rfl
      | some destination =>
        dsimp only
        split_ifs
        · exact Or.inl rfl
        · exact Or.inl rfl
        · have htouch := @mutations_mutate m r (.touch destination) rfl r.touch (some name)
          exact Or.inr ⟨destination, htouch⟩

theorem bind_selected {entry : Entry}
    (h : (m.selectedIndex.bind fun i => m.entries[i]?) = some entry) {target : CString}
    (htarget : buildChildPath m.path entry.name = some target) : Chosen m target := by
  obtain ⟨i, hi, hentry⟩ := Option.bind_eq_some_iff.mp h
  exact ⟨i, entry, hi, hentry, htarget⟩

theorem mutations_renameSelected (name : Option CString) :
    mutations (m.renameSelected r name).calls = [] ∨
      ∃ source destination, mutations (m.renameSelected r name).calls = [.move source destination] ∧
        Chosen m source := by
  unfold Model.renameSelected
  cases hselected : m.selectedIndex.bind fun i => m.entries[i]? with
  | none => exact Or.inl rfl
  | some entry =>
    cases name with
    | none => exact Or.inl rfl
    | some name =>
      dsimp only
      by_cases hname : validateName (some name) = .ok
      swap
      · rw [if_pos hname]
        exact Or.inl rfl
      · rw [if_neg (not_not.mpr hname)]
        split
        · rename_i source destination hsource hdestination
          split_ifs
          · exact Or.inl rfl
          · exact Or.inr ⟨source, destination, mutations_mutate rfl _ _, bind_selected hselected hsource⟩
        · exact Or.inl rfl

theorem mutations_removeSelected :
    mutations (m.removeSelected r).calls = [] ∨
      ∃ target, mutations (m.removeSelected r).calls = [.remove target] ∧ Chosen m target := by
  unfold Model.removeSelected
  cases hselected : m.selectedIndex.bind fun i => m.entries[i]? with
  | none => exact Or.inl rfl
  | some entry =>
    dsimp only
    cases htarget : buildChildPath m.path entry.name with
    | none => exact Or.inl rfl
    | some target => exact Or.inr ⟨target, mutations_mutate rfl _ _, bind_selected hselected htarget⟩

theorem mutations_navigateInto (index : Nat) : mutations (m.navigateInto r index).calls = [] := by
  unfold Model.navigateInto
  cases m.entries[index]? with
  | none => rfl
  | some selected =>
    dsimp only
    split_ifs
    · rfl
    · rfl
    · rfl
    · exact mutations_loadPath _

theorem mutations_navigateParent : mutations (m.navigateParent r).calls = [] := by
  unfold Model.navigateParent
  split_ifs
  · rfl
  · exact mutations_loadPath _

end Mutations

inductive Mutates (a : App) : List VfsCall → Prop
  | nothing : Mutates a []
  | created (h : a.dialog = .name) {call : VfsCall}
      (hcall : (∃ path, call = .mkdir path) ∨ ∃ path, call = .touch path) : Mutates a [call]
  | renamed (h : a.dialog = .name) (hpending : a.pending = .rename) {source destination : CString}
      (hchosen : Chosen a.model source) : Mutates a [.move source destination]
  | removed (h : a.dialog = .deleteConfirm) {target : CString} (hchosen : Chosen a.model target) :
      Mutates a [.remove target]

namespace App
variable (a : App) (r : Replies)

theorem mutates_confirmName (h : a.dialog = .name) : Mutates a (mutations (a.confirmName r).2) := by
  unfold App.confirmName App.nameOutcome
  dsimp only
  cases hpending : a.pending with
  | none => exact .nothing
  | newFolder =>
    rcases mutations_createFolder (m := a.model) (r := r) (some a.nameBuffer) with hnone | ⟨path, hcall⟩
    · rw [hnone]
      exact .nothing
    · rw [hcall]
      exact .created h (Or.inl ⟨path, rfl⟩)
  | newFile =>
    rcases mutations_createFile (m := a.model) (r := r) (some a.nameBuffer) with hnone | ⟨path, hcall⟩
    · rw [hnone]
      exact .nothing
    · rw [hcall]
      exact .created h (Or.inr ⟨path, rfl⟩)
  | rename =>
    rcases mutations_renameSelected (m := a.model) (r := r) (some a.nameBuffer) with
      hnone | ⟨source, destination, hcall, hchosen⟩
    · rw [hnone]
      exact .nothing
    · rw [hcall]
      exact .renamed h hpending hchosen

theorem mutates_confirmDelete (h : a.dialog = .deleteConfirm) :
    Mutates a (mutations (a.confirmDelete r).2) := by
  unfold App.confirmDelete
  dsimp only
  rcases mutations_removeSelected (m := a.model) (r := r) with hnone | ⟨target, hcall, hchosen⟩
  · rw [hnone]
    exact .nothing
  · rw [hcall]
    exact .removed h hchosen

theorem mutations_plainKey (event : KeyEvent) : mutations (a.plainKey r event).2 = [] := by
  unfold App.plainKey
  by_cases hctrl : event.ctrl ∧ event.key = .character
  · rw [if_pos hctrl]
    split_ifs <;> rfl
  · rw [if_neg hctrl]
    cases event.key with
    | enter =>
      dsimp only
      cases a.model.selectedIndex with
      | none => rfl
      | some selected =>
        dsimp only
        cases a.model.entries[selected]? with
        | none => rfl
        | some entry =>
          dsimp only
          split_ifs
          · exact mutations_navigateInto _
          · rfl
    | backspace => exact mutations_navigateParent
    | _ => rfl

theorem mutations_plainMouse (event : MouseEvent) : mutations (a.plainMouse r event).2 = [] := by
  unfold App.plainMouse
  by_cases h1 : event.x < 0 ∨ event.y < 0
  · rw [if_pos h1]
    rfl
  rw [if_neg h1]
  by_cases h2 : event.y ≥ 24 ∧ event.y < 48 ∧ event.x < 72
  · rw [if_pos h2]
    exact mutations_navigateParent
  rw [if_neg h2]
  by_cases h3 : event.y ≥ 24 ∨ event.x < 0
  · rw [if_pos h3]
    by_cases h4 : a.contentWidth ≤ 0 ∨ a.contentHeight ≤ 0
    · rw [if_pos h4]
      rfl
    · rw [if_neg h4]
      split <;> rfl
  · rw [if_neg h3]
    split_ifs <;> rfl

def Stays (a b : App) : Prop :=
  b.dialog = .none ∨ b.dialog = a.dialog ∧ b.pending = a.pending ∧ b.model = a.model

theorem stays_refl : a.Stays a := Or.inr ⟨rfl, rfl, rfl⟩

theorem setStatusFor_fields (status : Status) (operation : String) :
    (a.setStatusFor status operation).dialog = a.dialog ∧
    (a.setStatusFor status operation).pending = a.pending ∧
    (a.setStatusFor status operation).model = a.model := by
  unfold App.setStatusFor
  split_ifs <;> exact ⟨rfl, rfl, rfl⟩

theorem nameOutcome_failed (h : (a.nameOutcome r).status ≠ .ok) :
    (a.nameOutcome r).model = a.model := by
  unfold App.nameOutcome at h ⊢
  cases hpending : a.pending with
  | none => rfl
  | newFolder =>
    rw [hpending] at h
    exact (sound_createFolder (some a.nameBuffer)).failed h
  | newFile =>
    rw [hpending] at h
    exact (sound_createFile (some a.nameBuffer)).failed h
  | rename =>
    rw [hpending] at h
    exact (sound_renameSelected (some a.nameBuffer)).failed h

theorem stays_confirmName : a.Stays (a.confirmName r).1 := by
  have hfailed := a.nameOutcome_failed r
  unfold App.confirmName
  dsimp only
  generalize a.nameOutcome r = o at hfailed
  split_ifs with hok
  · exact Or.inl rfl
  · have hfields := App.setStatusFor_fields { a with model := o.model } o.status
    exact Or.inr ⟨(hfields _).1, (hfields _).2.1, (hfields _).2.2.trans (hfailed hok)⟩

theorem stays_onKey (event : KeyEvent) (h : a.dialog ≠ .none) : a.Stays (a.onKey r event).1 := by
  unfold App.onKey
  split_ifs
  · exact a.stays_refl
  · cases hdialog : a.dialog with
    | none => exact absurd hdialog h
    | name =>
      dsimp only
      unfold App.nameKey
      cases event.key with
      | escape => exact Or.inl rfl
      | enter => exact a.stays_confirmName r
      | character =>
        dsimp only
        split_ifs
        · exact Or.inr ⟨rfl, rfl, rfl⟩
        · exact a.stays_refl
      | backspace => exact Or.inr ⟨rfl, rfl, rfl⟩
      | _ => exact a.stays_refl
    | deleteConfirm =>
      dsimp only
      unfold App.deleteKey
      cases event.key with
      | escape => exact Or.inl rfl
      | enter => exact Or.inl rfl
      | _ => exact a.stays_refl

theorem stays_onMouse (event : MouseEvent) (h : a.dialog ≠ .none) : a.Stays (a.onMouse r event).1 := by
  unfold App.onMouse
  by_cases hpressed : (!event.leftPressed) = true
  · rw [if_pos hpressed]
    exact a.stays_refl
  · rw [if_neg hpressed, if_pos h]
    unfold App.dialogMouse
    dsimp only
    split_ifs
    · exact a.stays_refl
    · exact a.stays_confirmName r
    · exact Or.inl rfl
    · exact Or.inl rfl
    · exact a.stays_refl

end App

section Deliver
variable (s : Desk) (r : Replies)

def Desk.Tidy (s : Desk) : Prop := s.shown = false → s.app.dialog = .none

theorem tidy_deliver (h : s.Tidy) (e : Event) : (s.deliver r e).1.Tidy := by
  cases e with
  | activate =>
    unfold Desk.deliver
    dsimp only
    split_ifs
    · exact h
    · exact fun hfalse => (nomatch hfalse)
  | key event =>
    unfold Desk.deliver
    dsimp only
    split_ifs
    · exact fun hfalse => (nomatch hfalse)
    · exact h
  | mouse event =>
    unfold Desk.deliver
    dsimp only
    split_ifs
    · exact fun hfalse => (nomatch hfalse)
    · exact h
  | draw width height => exact h
  | close => exact fun _ => rfl

theorem stays_deliver (h : s.Tidy) (hdialog : s.app.dialog ≠ .none) (e : Event) :
    s.app.Stays (s.deliver r e).1.app := by
  have hshown : s.shown = true := by
    cases hs : s.shown with
    | true => rfl
    | false => exact absurd (h hs) hdialog
  cases e with
  | activate =>
    unfold Desk.deliver
    dsimp only
    rw [if_pos hshown]
    exact s.app.stays_refl
  | key event =>
    unfold Desk.deliver
    dsimp only
    rw [if_pos hshown]
    exact s.app.stays_onKey r event hdialog
  | mouse event =>
    unfold Desk.deliver
    dsimp only
    rw [if_pos hshown]
    exact s.app.stays_onMouse r event hdialog
  | draw width height => exact Or.inr ⟨rfl, rfl, rfl⟩
  | close => exact Or.inl rfl

theorem mutates_onKey (event : KeyEvent) : Mutates s.app (mutations (s.app.onKey r event).2) := by
  unfold App.onKey
  split_ifs
  · exact .nothing
  · cases hdialog : s.app.dialog with
    | none =>
      dsimp only
      rw [App.mutations_plainKey]
      exact .nothing
    | name =>
      dsimp only
      unfold App.nameKey
      cases event.key with
      | enter => exact App.mutates_confirmName _ r hdialog
      | character =>
        dsimp only
        split_ifs <;> exact .nothing
      | _ => exact .nothing
    | deleteConfirm =>
      dsimp only
      unfold App.deleteKey
      cases event.key with
      | enter => exact App.mutates_confirmDelete _ r hdialog
      | _ => exact .nothing

theorem mutates_onMouse (event : MouseEvent) :
    Mutates s.app (mutations (s.app.onMouse r event).2) := by
  unfold App.onMouse
  by_cases hpressed : (!event.leftPressed) = true
  · rw [if_pos hpressed]
    exact .nothing
  rw [if_neg hpressed]
  by_cases hdialog : s.app.dialog = .none
  · rw [if_neg (not_not.mpr hdialog), App.mutations_plainMouse]
    exact .nothing
  · rw [if_pos hdialog]
    unfold App.dialogMouse
    dsimp only
    split_ifs with h1 h2 h3
    · exact .nothing
    · exact App.mutates_confirmName _ r h3
    · refine App.mutates_confirmDelete _ r ?_
      cases hmode : s.app.dialog with
      | none => exact absurd hmode hdialog
      | name => exact absurd hmode h3
      | deleteConfirm => rfl
    · exact .nothing
    · exact .nothing

theorem mutates_deliver (e : Event) : Mutates s.app (mutations (s.deliver r e).2) := by
  cases e with
  | activate =>
    unfold Desk.deliver
    dsimp only
    split_ifs
    · exact .nothing
    · have hopen : mutations (s.app.openRoot r).2 = [] := mutations_loadPath _
      rw [hopen]
      exact .nothing
  | key event =>
    unfold Desk.deliver
    dsimp only
    split_ifs
    · exact mutates_onKey s r event
    · exact .nothing
  | mouse event =>
    unfold Desk.deliver
    dsimp only
    split_ifs
    · exact mutates_onMouse s r event
    · exact .nothing
  | draw width height => exact .nothing
  | close => exact .nothing

theorem mutations_unconfirmed (e : Event) (h : s.confirms e = false) :
    mutations (s.deliver r e).2 = [] := by
  cases e with
  | activate =>
    unfold Desk.deliver
    dsimp only
    split_ifs
    · rfl
    · exact mutations_loadPath _
  | key event =>
    unfold Desk.deliver
    dsimp only
    split_ifs with hshown
    swap
    · rfl
    unfold App.onKey
    split_ifs with hpressed
    · rfl
    · cases hdialog : s.app.dialog with
      | none => exact App.mutations_plainKey _ _ _
      | name =>
        dsimp only
        unfold App.nameKey
        cases hkey : event.key with
        | enter => simp [Desk.confirms, hshown, hdialog, hkey] at h; simp [h] at hpressed
        | character =>
          dsimp only
          split_ifs <;> rfl
        | _ => rfl
      | deleteConfirm =>
        dsimp only
        unfold App.deleteKey
        cases hkey : event.key with
        | enter => simp [Desk.confirms, hshown, hdialog, hkey] at h; simp [h] at hpressed
        | _ => rfl
  | mouse event =>
    unfold Desk.deliver
    dsimp only
    split_ifs with hshown
    swap
    · rfl
    unfold App.onMouse
    by_cases hpressed : (!event.leftPressed) = true
    · rw [if_pos hpressed]
      rfl
    rw [if_neg hpressed]
    by_cases hdialog : s.app.dialog = .none
    · rw [if_neg (not_not.mpr hdialog)]
      exact App.mutations_plainMouse _ _ _
    · rw [if_pos hdialog]
      have houtside : App.inside (layout ⟨0, 0, s.app.contentWidth, s.app.contentHeight⟩
          s.app.model.view).deleteButton event = false := by
        have hleft : event.leftPressed = true := by simpa using hpressed
        simpa [Desk.confirms, hshown, hdialog, hleft] using h
      unfold App.dialogMouse
      dsimp only
      by_cases hsize : s.app.contentWidth ≤ 0 ∨ s.app.contentHeight ≤ 0
      · rw [if_pos hsize]
        rfl
      · rw [if_neg hsize, if_neg (by rw [houtside]; exact Bool.false_ne_true)]
        split_ifs <;> rfl
  | draw width height => rfl
  | close => rfl

theorem cancelled_onKey (event : KeyEvent) (h : s.app.dialog ≠ .none) (hpressed : event.pressed = true)
    (hkey : event.key = .escape) : (s.app.onKey r event).1.dialog = .none := by
  unfold App.onKey
  rw [hpressed, if_neg (by decide)]
  cases hdialog : s.app.dialog with
  | none => exact absurd hdialog h
  | name =>
    dsimp only
    unfold App.nameKey
    rw [hkey]
    rfl
  | deleteConfirm =>
    dsimp only
    unfold App.deleteKey
    rw [hkey]
    rfl

theorem dialog_cancelled (e : Event) (h : s.cancels e = true) : (s.deliver r e).1.app.dialog = .none := by
  cases e with
  | activate => cases h
  | key event =>
    simp only [Desk.cancels, Bool.and_eq_true, decide_eq_true_eq] at h
    obtain ⟨⟨⟨hshown, hdialog⟩, hpressed⟩, hkey⟩ := h
    unfold Desk.deliver
    dsimp only
    rw [if_pos hshown]
    exact cancelled_onKey s r event hdialog hpressed hkey
  | mouse event =>
    simp only [Desk.cancels, Bool.and_eq_true, decide_eq_true_eq, Bool.not_eq_true'] at h
    obtain ⟨⟨⟨⟨⟨⟨hshown, hdialog⟩, hpressed⟩, hwidth⟩, hheight⟩, hdelete⟩, hcancel⟩ := h
    have hsize : ¬ (s.app.contentWidth ≤ 0 ∨ s.app.contentHeight ≤ 0) := by omega
    unfold Desk.deliver App.onMouse App.dialogMouse
    dsimp only
    rw [if_pos hshown, hpressed, if_neg (by decide), if_pos hdialog, if_neg hsize, hdelete,
      if_neg Bool.false_ne_true, if_pos hcancel]
    rfl
  | draw width height => cases h
  | close => rfl

end Deliver

theorem desk_snoc (history : List (Event × Replies)) (e : Event × Replies) :
    desk (history ++ [e]) = ((desk history).deliver e.2 e.1).1 := by
  unfold desk
  rw [List.foldl_append]
  rfl

theorem desk_tidy (history : List (Event × Replies)) : (desk history).Tidy := by
  induction history using List.reverseRecOn with
  | nil => exact fun _ => rfl
  | append_singleton history e ih =>
    rw [desk_snoc]
    exact tidy_deliver _ _ ih _

theorem session_desk (history : List (Event × Replies)) (h : (desk history).app.dialog ≠ .none) :
    Session history (desk history).app.dialog (desk history).app.pending (desk history).app.model := by
  induction history using List.reverseRecOn with
  | nil => exact absurd rfl h
  | append_singleton history e ih =>
    by_cases hbefore : (desk history).app.dialog = .none
    · exact .opened hbefore h
    · have hstays := stays_deliver (desk history) e.2 (desk_tidy history) hbefore e.1
      rw [← desk_snoc] at hstays
      rcases hstays with hnone | ⟨hdialog, hpending, hmodel⟩
      · exact absurd hnone h
      · have hkept := Session.kept (e := e) (ih hbefore) hdialog hpending hmodel
        rw [hdialog, hpending, hmodel]
        exact hkept

theorem mem_mutations {call : VfsCall} {calls : List VfsCall} (h : call ∈ calls)
    (hcall : call.isMutation = true) : call ∈ mutations calls := List.mem_filter.mpr ⟨h, hcall⟩

/-- The file manager acts on what the user chose, whatever happens and whatever the VFS answers. -/
theorem dialogs_act_on_choice (history : List (Event × Replies)) (e : Event) (r : Replies) :
    (∀ target, .remove target ∈ ((desk history).deliver r e).2 →
      ∃ pending chosen, Session history .deleteConfirm pending chosen ∧ Chosen chosen target) ∧
    (∀ source destination, .move source destination ∈ ((desk history).deliver r e).2 →
      ∃ chosen, Session history .name .rename chosen ∧ Chosen chosen source) ∧
    ((desk history).app.dialog = .none → mutations ((desk history).deliver r e).2 = []) ∧
    ((desk history).confirms e = false → mutations ((desk history).deliver r e).2 = []) ∧
    (mutations ((desk history).deliver r e).2).length ≤ 1 ∧
    ((desk history).cancels e = true → ((desk history).deliver r e).1.app.dialog = .none) := by
  have hmutates := mutates_deliver (desk history) r e
  have hsession := session_desk history
  refine ⟨fun target hmem => ?_, fun source destination hmem => ?_, fun hnone => ?_,
    mutations_unconfirmed _ r e, ?_, dialog_cancelled _ r e⟩
  · have hcall := mem_mutations hmem rfl
    revert hcall
    generalize mutations ((desk history).deliver r e).2 = calls at hmutates
    intro hcall
    cases hmutates with
    | nothing => cases hcall
    | created h hcreated =>
      rw [List.mem_singleton] at hcall
      subst hcall
      rcases hcreated with ⟨path, hpath⟩ | ⟨path, hpath⟩ <;> cases hpath
    | renamed => simp at hcall
    | removed h hchosen =>
      rw [List.mem_singleton, VfsCall.remove.injEq] at hcall
      subst hcall
      rw [h] at hsession
      exact ⟨_, _, hsession (by decide), hchosen⟩
  · have hcall := mem_mutations hmem rfl
    revert hcall
    generalize mutations ((desk history).deliver r e).2 = calls at hmutates
    intro hcall
    cases hmutates with
    | nothing => cases hcall
    | created h hcreated =>
      rw [List.mem_singleton] at hcall
      subst hcall
      rcases hcreated with ⟨path, hpath⟩ | ⟨path, hpath⟩ <;> cases hpath
    | renamed h hpending hchosen =>
      rw [List.mem_singleton, VfsCall.move.injEq] at hcall
      obtain ⟨rfl, -⟩ := hcall
      rw [h, hpending] at hsession
      exact ⟨_, hsession (by decide), hchosen⟩
    | removed => simp at hcall
  · generalize mutations ((desk history).deliver r e).2 = calls at hmutates
    cases hmutates with
    | nothing => rfl
    | created h => rw [hnone] at h; cases h
    | renamed h => rw [hnone] at h; cases h
    | removed h => rw [hnone] at h; cases h
  · generalize mutations ((desk history).deliver r e).2 = calls at hmutates
    cases hmutates <;> simp

end Linux95.Gui.FileManager
