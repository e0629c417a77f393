import Linux95.Terminal.ShellSession
import Mathlib.Data.List.Induction
import Mathlib.Tactic.SplitIfs

/-! Between two commands the text behind the prompt is the command the next newline will run, unless
a ping result falls into a half typed command, a backspace meets the start of a wrapped line, or the
prompt stands behind a NUL. -/

namespace Linux95.Terminal
open Net

theorem TerminalModel.cleared_valid : cleared.Valid :=
  ⟨Nat.one_pos, show 1 ≤ 64 by decide, Nat.zero_le _⟩

def TerminalModel.Reached (t : TerminalModel) : Prop :=
  ∃ outputs : List Output, outputs.foldl output cleared = t

theorem TerminalModel.Reached.valid {t : TerminalModel} (h : t.Reached) : t.Valid := by
  obtain ⟨outputs, rfl⟩ := h
  induction outputs using List.reverseRecOn with
  | nil => exact cleared_valid
  | append_singleton outputs o ih =>
    rw [List.foldl_append]
    cases o with
    | putChar c => exact putChar_valid ih c
    | clear => exact cleared_valid

namespace Screen

variable {s : Screen} {c : Char}

structure Ok (s : Screen) : Prop where
  valid : s.term.Valid
  clean : s.term.Clean

theorem Ok.putChar (h : s.Ok) (hc : c ≠ '\x00') : (s.putChar c).Ok :=
  ⟨TerminalModel.putChar_valid h.valid c, TerminalModel.putChar_clean h.clean hc⟩

theorem Ok.write (h : s.Ok) {text : List Char} (ht : ∀ c ∈ text, c ≠ '\x00') : (s.write text).Ok := by
  induction text generalizing s with
  | nil => exact h
  | cons c text ih =>
    exact ih (h.putChar (ht c (List.mem_cons_self ..)))
      fun c hc => ht c (List.mem_cons_of_mem _ hc)

theorem reversedDigits_ne (room value : Nat) : ∀ c ∈ reversedDigits room value, c ≠ '\x00' := by
  induction room generalizing value with
  | zero => intro c hc; cases hc
  | succ room ih =>
    intro c hc
    rw [reversedDigits] at hc
    split at hc
    · cases hc
    · rcases List.mem_cons.mp hc with rfl | hc
      · have hlt : value % 10 < 10 := Nat.mod_lt _ (by decide)
        have hdigit : ∀ d < 10, Char.ofNat ('0'.toNat + d) ≠ '\x00' := by decide
        exact hdigit _ hlt
      · exact ih _ c hc

theorem Ok.writeUint (h : s.Ok) (value : Nat) : (s.writeUint value).Ok := by
  rw [Screen.writeUint]
  split
  · exact h.putChar (by decide)
  · apply h.write
    intro c hc
    exact reversedDigits_ne _ _ c (List.mem_reverse.mp hc)

theorem Ok.writeIpv4 (h : s.Ok) (address : Ipv4Address) : (s.writeIpv4 address).Ok := by
  have key : ∀ (bytes : List (Fin 4)) (s : Screen), s.Ok →
      (bytes.foldl (fun s i => (if i ≠ 0 then s.putChar '.' else s).writeUint (address i).toNat)
        s).Ok := by
    intro bytes
    induction bytes with
    | nil => exact fun s hs => hs
    | cons i bytes ih =>
      intro s hs
      apply ih
      apply Ok.writeUint
      split
      · exact hs.putChar (by decide)
      · exact hs
  exact key _ s h

/-- Where the prompt is: the lines behind it are full, and it has not scrolled away. -/
structure Marked (s : Screen) (typed : Nat) : Prop where
  lt : s.newLines < s.term.lineCount
  column : s.promptColumn ≤ columns
  full : (s.term.tail s.newLines).length = columns * s.newLines + s.term.cursorColumn
  typed : (s.term.tail s.newLines).length = s.promptColumn + typed

theorem Ok.prompt_marked (h : s.prompt.Ok) : s.prompt.Marked 0 ∧ s.prompt.shown = [] := by
  -- right behind the prompt nothing is shown
  obtain ⟨w, heq⟩ : ∃ w : Screen,
      s.prompt = { w with promptColumn := w.term.cursorColumn, newLines := 0 } :=
    ⟨s.write "linux95> ".toList, by rw [Screen.prompt]⟩
  rw [heq] at h ⊢
  have hlen : (w.term.tail 0).length = w.term.cursorColumn :=
    TerminalModel.tail_zero h.clean h.valid
  refine ⟨⟨h.valid.pos, h.valid.column, ?_, hlen⟩, ?_⟩
  · show (w.term.tail 0).length = columns * 0 + w.term.cursorColumn
    omega
  · show (w.term.tail 0).drop w.term.cursorColumn = []
    rw [← hlen, List.drop_length]

theorem Ok.prompt (h : s.Ok) : s.prompt.Ok := by
  have hw : (s.write "linux95> ".toList).Ok := h.write (by simp)
  rw [Screen.prompt]
  generalize s.write "linux95> ".toList = w at hw
  exact ⟨hw.valid, hw.clean⟩

theorem Ok.type (h : s.Ok) {typed : Nat} (hm : s.Marked typed) (hroom : typed < commandCapacity)
    (hc : 32 ≤ c.toNat) : (s.putChar c).Marked (typed + 1) ∧ (s.putChar c).shown = s.shown ++ [c] := by
  have hne : c ≠ '\x00' ∧ c ≠ '\n' ∧ c ≠ '\x08' ∧ c ≠ '\r' := by
    refine ⟨?_, ?_, ?_, ?_⟩ <;>
      · rintro rfl
        revert hc
        decide
  obtain ⟨h0, hn, hb, hr⟩ := hne
  obtain ⟨hlt, hcolumn, hfull, htyped⟩ := hm
  have hcur := h.valid.column
  have hcap : commandCapacity = 260 := rfl
  have hcols : columns = 120 := rfl
  have hlines : historyLines = 64 := rfl
  have hsmall : s.newLines + 1 < historyLines := by
    have : columns * s.newLines ≤ columns + typed := by omega
    rw [hcols] at this
    omega
  have hdrop : s.promptColumn ≤ (s.term.tail s.newLines).length := by omega
  by_cases hwrap : s.term.cursorColumn ≥ columns
  · have hput : s.putChar c = { s with
        term := s.term.newLine.place c, newLines := s.newLines + 1 } := by
      simp [Screen.putChar, TerminalModel.putChar, TerminalModel.breaks, hn, hb, hr, hwrap]
    have htail : (s.term.newLine.place c).tail (s.newLines + 1) =
        s.term.tail s.newLines ++ [c] := by
      rw [TerminalModel.tail_place (TerminalModel.newLine_clean _) (TerminalModel.newLine_valid _)
        (show 0 < columns by decide) h0, TerminalModel.tail_newLine h.valid hlt hsmall]
      rw [TerminalModel.newLine]
      split
      · exact Nat.succ_lt_succ hlt
      · exact hsmall
    rw [hput]
    refine ⟨⟨?_, hcolumn, ?_, ?_⟩, ?_⟩
    · show s.newLines + 1 < s.term.newLine.lineCount
      rw [TerminalModel.newLine]
      split
      · exact Nat.succ_lt_succ hlt
      · exact hsmall
    · show ((s.term.newLine.place c).tail (s.newLines + 1)).length = columns * (s.newLines + 1) + 1
      rw [htail, List.length_append, List.length_singleton, hfull, Nat.mul_succ]
      omega
    · show ((s.term.newLine.place c).tail (s.newLines + 1)).length = s.promptColumn + (typed + 1)
      rw [htail, List.length_append, List.length_singleton, htyped]
      omega
    · show ((s.term.newLine.place c).tail (s.newLines + 1)).drop s.promptColumn = _
      rw [htail, List.drop_append_of_le_length hdrop]
      rfl
  · have hput : s.putChar c = { s with term := s.term.place c } := by
      simp [Screen.putChar, TerminalModel.putChar, TerminalModel.breaks, hn, hb, hr, hwrap]
    have htail := TerminalModel.tail_place (c := c) h.clean h.valid (by omega) h0 hlt
    rw [hput]
    refine ⟨⟨hlt, hcolumn, ?_, ?_⟩, ?_⟩
    · show ((s.term.place c).tail s.newLines).length =
        columns * s.newLines + (s.term.cursorColumn + 1)
      rw [htail, List.length_append, List.length_singleton, hfull]
      omega
    · show ((s.term.place c).tail s.newLines).length = s.promptColumn + (typed + 1)
      rw [htail, List.length_append, List.length_singleton, htyped]
      omega
    · show ((s.term.place c).tail s.newLines).drop s.promptColumn = _
      rw [htail, List.drop_append_of_le_length hdrop]
      rfl

theorem Ok.backspace (h : s.Ok) {typed : Nat} (hm : s.Marked (typed + 1))
    (hcol : s.term.cursorColumn ≠ 0) :
    (s.putChar '\x08').Marked typed ∧ (s.putChar '\x08').shown = s.shown.dropLast := by
  obtain ⟨hlt, hcolumn, hfull, htyped⟩ := hm
  have hput : s.putChar '\x08' = { s with term := s.term.putChar '\x08' } := by
    simp [Screen.putChar, TerminalModel.breaks]
  have hterm : (s.term.putChar '\x08').lineCount = s.term.lineCount ∧
      (s.term.putChar '\x08').cursorColumn = s.term.cursorColumn - 1 := by
    rw [TerminalModel.putChar, if_neg (by decide), if_pos rfl, if_neg hcol]
    exact ⟨rfl, rfl⟩
  have htail := TerminalModel.tail_backspace h.clean h.valid hcol hlt
  rw [hput]
  refine ⟨⟨?_, hcolumn, ?_, ?_⟩, ?_⟩
  · show s.newLines < (s.term.putChar '\x08').lineCount
    rw [hterm.1]
    exact hlt
  · show ((s.term.putChar '\x08').tail s.newLines).length =
      columns * s.newLines + (s.term.putChar '\x08').cursorColumn
    rw [htail, List.length_dropLast, hfull, hterm.2]
    omega
  · show ((s.term.putChar '\x08').tail s.newLines).length = s.promptColumn + typed
    rw [htail, List.length_dropLast, htyped]
    omega
  · show ((s.term.putChar '\x08').tail s.newLines).drop s.promptColumn = _
    rw [htail, shown]
    rw [List.dropLast_eq_take, List.dropLast_eq_take, List.drop_take, List.length_drop]
    congr 1
    omega

theorem write_valid (h : s.term.Valid) (text : List Char) : (s.write text).term.Valid := by
  induction text generalizing s with
  | nil => exact h
  | cons c text ih => exact ih (TerminalModel.putChar_valid h c)

theorem writeUint_valid (h : s.term.Valid) (value : Nat) : (s.writeUint value).term.Valid := by
  rw [Screen.writeUint]
  split
  · exact TerminalModel.putChar_valid h '0'
  · exact write_valid h _

theorem foldl_valid {α : Type} (f : Screen → α → Screen)
    (hf : ∀ s a, s.term.Valid → (f s a).term.Valid) (h : s.term.Valid) (xs : List α) :
    (xs.foldl f s).term.Valid := by
  induction xs generalizing s with
  | nil => exact h
  | cons a xs ih => exact ih (hf s a h)

theorem writeIpv4_valid (h : s.term.Valid) (address : Ipv4Address) :
    (s.writeIpv4 address).term.Valid := by
  apply foldl_valid _ _ h
  intro s i hs
  apply writeUint_valid
  split
  · exact TerminalModel.putChar_valid hs '.'
  · exact hs

theorem writeMac_valid (h : s.term.Valid) (address : MacAddress) :
    (s.writeMac address).term.Valid := by
  apply foldl_valid _ _ h
  intro s i hs
  apply TerminalModel.putChar_valid
  apply TerminalModel.putChar_valid
  split
  · exact TerminalModel.putChar_valid hs ':'
  · exact hs

theorem outputs_valid (h : s.term.Valid) (outputs : List Output) :
    (outputs.foldl Screen.output s).term.Valid := by
  apply foldl_valid _ _ h
  intro s o hs
  cases o with
  | putChar c => exact TerminalModel.putChar_valid hs c
  | clear => exact TerminalModel.cleared_valid

theorem prompt_valid (h : s.term.Valid) : s.prompt.term.Valid := by
  have hw := write_valid h "linux95> ".toList
  rw [Screen.prompt]
  generalize s.write "linux95> ".toList = w at hw
  exact hw

end Screen

namespace ShellSession

open Screen

variable {s : ShellSession}

section execute

variable (h : s.screen.term.Valid)
include h

theorem executeIp_valid (net : NetworkAnswers) : (s.executeIp net).screen.term.Valid := by
  rw [executeIp]
  split
  · exact write_valid h _
  · split
    · apply write_valid
      apply writeIpv4_valid
      apply write_valid
      apply writeIpv4_valid
      apply write_valid
      apply writeIpv4_valid
      apply write_valid
      apply writeMac_valid
      exact write_valid h _
    · exact write_valid h _

theorem executePing_valid (net : NetworkAnswers) : (s.executePing net).screen.term.Valid := by
  rw [executePing]
  split
  · exact write_valid h _
  · split
    · split
      · apply write_valid
        apply writeIpv4_valid
        exact write_valid h _
      · exact h
    · exact write_valid h _

theorem executeDnsServer_valid (dns : DnsAnswers) :
    (s.executeDnsServer dns).screen.term.Valid := by
  have hserver : ∀ (s : ShellSession) (address : Ipv4Address), s.screen.term.Valid →
      (((s.write "dns server: ").writeIpv4 address).write "\n").screen.term.Valid := by
    intro s address hs
    apply write_valid
    apply writeIpv4_valid
    exact write_valid hs _
  rw [executeDnsServer]
  split
  · exact write_valid h _
  · split
    · exact hserver s _ h
    · split
      · exact hserver _ _ (write_valid h _)
      · split
        · exact hserver _ _ (write_valid h _)
        · apply hserver
          split
          · exact write_valid h _
          · exact h

theorem executeLookup_valid (dns : DnsAnswers) : (s.executeLookup dns).screen.term.Valid := by
  rw [executeLookup]
  split
  · exact write_valid h _
  · split
    · exact write_valid h _
    · split
      · exact write_valid h _
      · dsimp only
        split
        · exact h
        · exact write_valid h _

theorem execute_valid (answers : Answers) : (s.execute answers).2.screen.term.Valid := by
  rw [execute, executeNetworkCommand]
  split_ifs
  · exact executeIp_valid h _
  · exact executePing_valid h _
  · simp only [executeDnsCommand]
    split_ifs
    · exact executeDnsServer_valid h _
    · exact executeLookup_valid h _
    · cases answers.execute with
      | none => exact h
      | some executor => exact outputs_valid h _

end execute

structure Typed (s : ShellSession) : Prop where
  ok : s.screen.Ok
  room : s.command.length < commandCapacity
  pending : s.dnsPending = true → s.command = []
  marked : s.dnsPending = false → s.screen.Marked s.command.length
  shown : s.dnsPending = false → s.screen.shown = s.command

/-- A session that has just been begun, has run a command, or is back from the editor, on any
terminal. -/
inductive Started : ShellSession → Prop where
  | begin (s : ShellSession) (h : s.screen.term.Reached) : Started s.begin
  | command (s : ShellSession) (h : s.screen.term.Reached) (hp : s.dnsPending = false)
      (answers : Answers) (ha : (s.onChar answers '\n').1 = .continue) :
      Started (s.onChar answers '\n').2
  | editor (s : ShellSession) (h : s.screen.term.Reached) (hp : s.dnsPending = false)
      (answers : Answers) (ha : (s.onChar answers '\n').1 = .openEditor) (outputs : List Output) :
      Started { (s.onChar answers '\n').2 with
        screen := outputs.foldl Screen.output (s.onChar answers '\n').2.screen }.resumePrompt

theorem prompt_screen (s : ShellSession) : s.prompt.screen = s.screen.prompt := by rw [prompt]

theorem prompt_command (s : ShellSession) : s.prompt.command = s.command := by rw [prompt]

theorem typed_prompt (h : s.screen.prompt.Ok) (hc : s.command = []) : Typed s.prompt := by
  obtain ⟨hmarked, hshown⟩ := h.prompt_marked
  constructor
  · rw [prompt_screen]
    exact h
  · rw [prompt_command, hc]
    exact (show 0 < commandCapacity by decide)
  · intro _
    rw [prompt_command, hc]
  · intro _
    rw [prompt_command, prompt_screen, hc]
    exact hmarked
  · intro _
    rw [prompt_command, prompt_screen, hc]
    exact hshown

theorem finish_cases (result : CommandAction × ShellSession) :
    (finish result).1 = result.1 ∧
      ((finish result).2 = { result.2 with command := [] } ∧
          (result.2.dnsPending = true ∨ result.1 = .openEditor) ∨
        (finish result).2 = ({ result.2 with command := [] } : ShellSession).prompt ∧
          result.2.dnsPending = false ∧ result.1 ≠ .openEditor) := by
  rw [finish]
  dsimp only
  split
  · next h => exact ⟨rfl, Or.inr ⟨rfl, h⟩⟩
  · next h =>
    refine ⟨rfl, Or.inl ⟨rfl, ?_⟩⟩
    cases hp : result.2.dnsPending with
    | true => exact Or.inl rfl
    | false => exact Or.inr (by simpa [hp] using h)

theorem onChar_newline (hp : s.dnsPending = false) (answers : Answers) :
    s.onChar answers '\n' =
      finish (({ s with screen := s.screen.putChar '\n' } : ShellSession).execute answers) := by
  rw [onChar, hp, if_neg (by decide), if_pos rfl]

theorem typed_pending (h : s.screen.Ok) (hp : s.dnsPending = true) (hc : s.command = []) :
    Typed s := by
  refine ⟨h, by rw [hc]; exact (show 0 < commandCapacity by decide), fun _ => hc, ?_, ?_⟩
  · intro hf
    rw [hp] at hf
    cases hf
  · intro hf
    rw [hp] at hf
    cases hf

/-- A newline runs a command, which leaves a screen in order. -/
theorem onChar_executed (h : s.screen.term.Valid) (hp : s.dnsPending = false) (answers : Answers) :
    ∃ r : CommandAction × ShellSession, r.2.screen.term.Valid ∧ s.onChar answers '\n' = finish r :=
  ⟨_, @execute_valid { s with screen := s.screen.putChar '\n' } (TerminalModel.putChar_valid h '\n') answers,
    onChar_newline hp answers⟩

theorem Started.typed (h : Started s) (hclean : s.screen.term.Clean) : Typed s := by
  cases h with
  | begin s h =>
    rw [ShellSession.begin] at hclean ⊢
    rw [prompt_screen] at hclean
    exact typed_prompt ⟨prompt_valid h.valid, hclean⟩ rfl
  | command s h hp answers ha =>
    obtain ⟨r, hv, hexecuted⟩ := onChar_executed h.valid hp answers
    rw [hexecuted] at ha hclean ⊢
    obtain ⟨haction, ⟨heq, hcase⟩ | ⟨heq, -, -⟩⟩ := finish_cases r
    · rw [heq] at hclean ⊢
      have hpending : r.2.dnsPending = true := by
        rcases hcase with hcase | hcase
        · exact hcase
        · rw [haction, hcase] at ha
          cases ha
      exact typed_pending ⟨hv, hclean⟩ hpending rfl
    · rw [heq] at hclean ⊢
      rw [prompt_screen] at hclean
      exact typed_prompt ⟨prompt_valid hv, hclean⟩ rfl
  | editor s h hp answers ha outputs =>
    obtain ⟨r, hv, hexecuted⟩ := onChar_executed h.valid hp answers
    rw [hexecuted] at ha hclean ⊢
    obtain ⟨haction, ⟨heq, -⟩ | ⟨-, -, hne⟩⟩ := finish_cases r
    · rw [heq] at hclean ⊢
      rw [resumePrompt] at hclean ⊢
      split at hclean
      · next hpending =>
        rw [if_pos hpending]
        exact typed_pending ⟨outputs_valid hv outputs, hclean⟩ hpending rfl
      · next hpending =>
        rw [if_neg hpending]
        rw [prompt_screen] at hclean
        exact typed_prompt ⟨prompt_valid (outputs_valid hv outputs), hclean⟩ rfl
    · rw [haction] at ha
      exact absurd ha hne

inductive Event where
  | key (answers : Answers) (c : Char) (h : c ≠ '\n')
  | poll (answers : Answers)

def step (s : ShellSession) : Event → ShellSession
  | .key answers c _ => (s.onChar answers c).2
  | .poll answers => (s.poll answers).2

def run (s : ShellSession) (events : List Event) : ShellSession := events.foldl step s

/-- A backspace is not at the start of a line, and a ping result does not find a half typed
command. -/
def Undisturbed (s : ShellSession) : Event → Prop
  | .key _ c _ => c = '\x08' → s.dnsPending = false → s.command ≠ [] →
      s.screen.term.cursorColumn ≠ 0
  | .poll answers => ∀ result, answers.network.pingResult = some result →
      finished result.state = true → s.dnsPending = false → s.command = []

def UndisturbedRun : ShellSession → List Event → Prop
  | _, [] => True
  | s, event :: events => s.Undisturbed event ∧ UndisturbedRun (s.step event) events

theorem Typed.key (h : Typed s) (answers : Answers) {c : Char} (hn : c ≠ '\n')
    (hu : c = '\x08' → s.dnsPending = false → s.command ≠ [] → s.screen.term.cursorColumn ≠ 0) :
    Typed (s.onChar answers c).2 := by
  rw [onChar]
  cases hp : s.dnsPending with
  | true => exact h
  | false =>
    have hmarked := h.marked hp
    have hshown := h.shown hp
    rw [if_neg (by decide), if_neg hn]
    split
    · next hb =>
      subst hb
      split
      · exact h
      · next hlen =>
        have hne : s.command ≠ [] := fun heq => hlen (by rw [heq]; rfl)
        obtain ⟨n, hsucc⟩ := Nat.exists_eq_succ_of_ne_zero hlen
        rw [hsucc] at hmarked
        obtain ⟨hm, hs⟩ := h.ok.backspace hmarked (hu rfl hp hne)
        have hlen' : s.command.dropLast.length = n := by
          rw [List.length_dropLast, hsucc]
          rfl
        have hroom := h.room
        refine ⟨h.ok.putChar (by decide), ?_, ?_, ?_, ?_⟩
        · show s.command.dropLast.length < commandCapacity
          omega
        · intro hpending
          cases hpending
        · intro _
          show (s.screen.putChar '\x08').Marked s.command.dropLast.length
          rw [hlen']
          exact hm
        · intro _
          show (s.screen.putChar '\x08').shown = s.command.dropLast
          rw [hs, hshown]
    · split
      · exact h
      · next hc =>
        split
        · exact h
        · next hroom =>
          have hc' : 32 ≤ c.toNat := by omega
          obtain ⟨hm, hs⟩ := h.ok.type hmarked h.room hc'
          have h0 : c ≠ '\x00' := by
            rintro rfl
            revert hc'
            decide
          refine ⟨h.ok.putChar h0, ?_, ?_, ?_, ?_⟩
          · show (s.command ++ [c]).length < commandCapacity
            rw [List.length_append, List.length_singleton]
            omega
          · intro hpending
            cases hpending
          · intro _
            show (s.screen.putChar c).Marked (s.command ++ [c]).length
            rw [List.length_append, List.length_singleton]
            exact hm
          · intro _
            show (s.screen.putChar c).shown = s.command ++ [c]
            rw [hs, hshown]

theorem write_same (s : ShellSession) (text : String) :
    (s.write text).command = s.command ∧ (s.write text).dnsPending = s.dnsPending := ⟨rfl, rfl⟩

theorem writeUint_same (s : ShellSession) (value : Nat) :
    (s.writeUint value).command = s.command ∧ (s.writeUint value).dnsPending = s.dnsPending :=
  ⟨rfl, rfl⟩

theorem writeIpv4_same (s : ShellSession) (address : Ipv4Address) :
    (s.writeIpv4 address).command = s.command ∧ (s.writeIpv4 address).dnsPending = s.dnsPending :=
  ⟨rfl, rfl⟩

theorem writePing_ok (h : s.screen.Ok) (result : PingResult) : (s.writePing result).screen.Ok := by
  rw [writePing]
  have hnl : (s.write "\n").screen.Ok := h.write (by simp)
  dsimp only
  split
  · apply Ok.write _ (by simp)
    apply Ok.writeUint
    apply Ok.write _ (by simp)
    apply Ok.writeIpv4
    apply Ok.write _ (by simp)
    exact hnl.writeUint _
  · split
    · exact hnl.write (by simp)
    · apply Ok.write _ (by simp)
      apply Ok.writeIpv4
      exact hnl.write (by simp)

theorem writePing_same (result : PingResult) :
    (s.writePing result).command = s.command ∧ (s.writePing result).dnsPending = s.dnsPending := by
  rw [writePing]
  dsimp only
  split
  · simp only [write_same, writeUint_same, writeIpv4_same, and_self]
  · split <;> simp only [write_same, writeIpv4_same, and_self]

theorem Typed.pollPing (h : Typed s) (net : NetworkAnswers)
    (hu : ∀ result, net.pingResult = some result → finished result.state = true →
      s.dnsPending = false → s.command = []) : Typed (s.pollPing net).2 := by
  rw [ShellSession.pollPing]
  split
  · exact h
  · next result hresult =>
    split
    · next hfinished =>
      have hok := writePing_ok h.ok result
      obtain ⟨hcommand, hpending⟩ := writePing_same (s := s) result
      dsimp only
      generalize s.writePing result = w at hok hcommand hpending
      cases hp : s.dnsPending with
      | true =>
        rw [hp] at hpending
        rw [if_pos hpending]
        exact typed_pending hok hpending (hcommand.trans (h.pending hp))
      | false =>
        rw [hp] at hpending
        rw [hpending, if_neg (by decide)]
        exact typed_prompt hok.prompt (hcommand.trans (hu result hresult hfinished hp))
    · exact h

theorem writeAddresses_ok (h : s.screen.Ok) (dns : DnsAnswers) :
    (s.writeAddresses dns).screen.Ok ∧ (s.writeAddresses dns).command = s.command := by
  rw [writeAddresses]
  generalize List.range (min (dns.resultCount.getD 0) 8) = indices
  induction indices generalizing s with
  | nil => exact ⟨h, rfl⟩
  | cons i indices ih =>
    rw [List.foldl_cons]
    split
    · exact ih h
    · next address _ =>
      apply ih
      apply Ok.write _ (by simp)
      apply Ok.writeIpv4
      exact h.write (by simp)

theorem Typed.pollDns (h : Typed s) (dns : DnsAnswers) : Typed (s.pollDns dns).2 := by
  rw [ShellSession.pollDns]
  split
  · next hp =>
    have hc := h.pending hp
    split
    · exact h
    · next status _ =>
      split
      · exact h
      · dsimp only
        split
        · obtain ⟨hok, hcommand⟩ := writeAddresses_ok h.ok dns
          exact typed_prompt hok.prompt (hcommand.trans hc)
        · have htext : ∀ c ∈ (dnsStatusText status).toList, c ≠ '\x00' := by
            cases status <;> simp [dnsStatusText]
          exact typed_prompt (h.ok.write htext).prompt hc
  · exact h

theorem Typed.step (h : Typed s) (event : Event) (hu : s.Undisturbed event) :
    Typed (s.step event) := by
  cases event with
  | key answers c hn => exact h.key answers hn hu
  | poll answers => exact (h.pollPing answers.network hu).pollDns answers.dns

theorem Typed.run (h : Typed s) (events : List Event) (hu : s.UndisturbedRun events) :
    Typed (s.run events) := by
  induction events generalizing s with
  | nil => exact h
  | cons event events ih => exact ih (h.step event hu.1) hu.2

/-- What the terminal shows behind the prompt is what the next newline runs. -/
theorem shown_is_typed (s : ShellSession) (hs : Started s) (hclean : s.screen.term.Clean)
    (events : List Event) (hu : s.UndisturbedRun events)
    (hp : (s.run events).dnsPending = false) :
    (s.run events).screen.shown = (s.run events).command :=
  ((hs.typed hclean).run events hu).shown hp

def fresh : ShellSession := ⟨⟨TerminalModel.cleared, 0, 0⟩, false, []⟩

def pingAnswers (state : PingState) : Answers :=
  ⟨⟨none, none, some ⟨state, fun _ => 10, 7, 32⟩⟩,
    ⟨none, none, none, none, none, none, fun address => address⟩, none⟩

def typeKey (c : Char) (h : c ≠ '\n') : Event := .key (pingAnswers .idle) c h

theorem fresh_begin_clean : fresh.begin.screen.term.Clean := by
  rw [ShellSession.begin, prompt_screen]
  exact (Ok.prompt ⟨TerminalModel.cleared_valid, ⟨fun j hj => absurd hj (Nat.not_lt_zero j), rfl⟩⟩).clean

theorem shown_is_typed_corrected :
    (fresh.begin.run [typeKey 'l' (by decide), typeKey 'd' (by decide),
      typeKey '\x08' (by decide), typeKey 's' (by decide), .poll (pingAnswers .waitingReply)]).screen.shown
      = ['l', 's'] := by
  have h := shown_is_typed fresh.begin (.begin fresh ⟨[], rfl⟩) fresh_begin_clean
    [typeKey 'l' (by decide), typeKey 'd' (by decide), typeKey '\x08' (by decide),
      typeKey 's' (by decide), .poll (pingAnswers .waitingReply)]
    ⟨fun h => absurd h (by decide), fun h => absurd h (by decide),
      fun _ _ _ => by decide +kernel, fun h => absurd h (by decide),
      (fun result hr hf => by
        cases hr
        cases hf), trivial⟩
    (by decide +kernel)
  rw [h]
  decide +kernel

/-- A ping result in a half typed command prints a new prompt and not the command; a backspace at
the start of a wrapped line shortens the command and not the text. -/
theorem shown_is_not_typed :
    (Started fresh.begin ∧
      (fresh.begin.run [typeKey 'l' (by decide), .poll (pingAnswers .replyReceived)]).dnsPending = false ∧
      (fresh.begin.run [typeKey 'l' (by decide), .poll (pingAnswers .replyReceived)]).screen.shown = [] ∧
      (fresh.begin.run [typeKey 'l' (by decide), .poll (pingAnswers .replyReceived)]).command = ['l']) ∧
    ((fresh.begin.run (List.replicate 112 (typeKey 'x' (by decide)) ++
        List.replicate 2 (typeKey '\x08' (by decide)))).screen.shown = List.replicate 111 'x' ∧
      (fresh.begin.run (List.replicate 112 (typeKey 'x' (by decide)) ++
        List.replicate 2 (typeKey '\x08' (by decide)))).command = List.replicate 110 'x') := by
  refine ⟨⟨.begin fresh ⟨[], rfl⟩, ?_⟩, ?_⟩
  · decide +kernel
  · decide +kernel

end ShellSession

end Linux95.Terminal
