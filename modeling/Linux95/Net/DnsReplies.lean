import Mathlib.Data.List.Forall2
import Linux95.Net.DnsAnswers

/-! What `parse_response` answers, said without its loops: the chain of aliases as a path through the
answers, and the answer as a function of that path. The order of the answers drops out of it. -/

namespace Linux95.Net.Dns

inductive AliasPath (answers : List Answer) : Name → List Name → Prop
  | nil (name : Name) : AliasPath answers name []
  | cons {name target : Name} {path : List Name} (answer : Answer) (hmem : answer ∈ answers)
      (howner : namesEqual answer.owner name = true) (htarget : answer.target? = some target)
      (h : AliasPath answers target path) : AliasPath answers name (target :: path)

def NoAlias (answers : List Answer) (name : Name) : Prop :=
  ∀ answer ∈ answers, answer.target? ≠ none → namesEqual answer.owner name = false

def Met (visited path : List Name) : Prop :=
  ∃ k target, path[k]? = some target ∧ ∃ v ∈ visited ++ path.take k, namesEqual v target = true

abbrev SameNames : List Name → List Name → Prop := List.Forall₂ fun a b => namesEqual a b = true

section Paths
variable {answers : List Answer} {name name' : Name} {path path' visited : List Name}

theorem aliasOf_none : aliasOf answers name = none ↔ NoAlias answers name := by
  unfold aliasOf NoAlias
  rw [List.findSome?_eq_none_iff]
  refine forall₂_congr fun answer _ => ?_
  cases namesEqual answer.owner name <;> simp

theorem aliasOf_some {target : Name} (h : aliasOf answers name = some target) :
    ∃ answer ∈ answers, namesEqual answer.owner name = true ∧ answer.target? = some target := by
  unfold aliasOf at h
  obtain ⟨answer, hmem, hsome⟩ := List.exists_of_findSome?_eq_some h
  split_ifs at hsome with howner
  exact ⟨answer, hmem, howner, hsome⟩

theorem AliasPath.append (h : AliasPath answers name path) {path' : List Name}
    (h' : AliasPath answers (path.getLastD name) path') : AliasPath answers name (path ++ path') := by
  induction h with
  | nil => exact h'
  | @cons name target path answer hmem howner htarget _ ih =>
    refine .cons answer hmem howner htarget (ih ?_)
    rwa [List.getLastD_cons] at h'

theorem targets_agree (hno : ¬ Conflict answers) {a b : Answer} (ha : a ∈ answers) (hb : b ∈ answers)
    {target target' : Name} (htarget : a.target? = some target) (htarget' : b.target? = some target')
    (howner : namesEqual a.owner name = true) (howner' : namesEqual b.owner name' = true)
    (hname : namesEqual name name' = true) : namesEqual target target' = true := by
  by_contra hne
  have hsame := namesEqual_trans (namesEqual_trans howner hname) (namesEqual_symm howner')
  exact hno ⟨a, ha, target, htarget, b, hb, hsame, .inr ⟨target', htarget', Bool.eq_false_iff.mpr hne⟩⟩

theorem AliasPath.agree (hno : ¬ Conflict answers) (h : AliasPath answers name path) (h' : AliasPath answers name' path')
    (hname : namesEqual name name' = true) (hle : path'.length ≤ path.length) :
    SameNames (path.take path'.length) path' := by
  induction h' generalizing name path with
  | nil =>
    rw [List.length_nil, List.take_zero]
    exact .nil
  | cons b hb howner' htarget' _ ih =>
    cases h with
    | nil => simp at hle
    | cons a ha howner htarget h =>
      have hsame := targets_agree hno ha hb htarget htarget' howner howner' hname
      rw [List.length_cons, List.take_succ_cons]
      rw [List.length_cons, List.length_cons] at hle
      exact .cons hsame (ih h hsame (by omega))

theorem AliasPath.length_le (hno : ¬ Conflict answers) (h : AliasPath answers name path)
    (hend : NoAlias answers (path.getLastD name)) (h' : AliasPath answers name' path')
    (hname : namesEqual name name' = true) : path'.length ≤ path.length := by
  induction h' generalizing name path with
  | nil => simp
  | cons b hb howner' htarget' _ ih =>
    cases h with
    | nil =>
      have hfalse := hend b hb (by rw [htarget']; exact Option.some_ne_none _)
      rw [List.getLastD_nil, namesEqual_trans howner' (namesEqual_symm hname)] at hfalse
      cases hfalse
    | cons a ha howner htarget h =>
      rw [List.getLastD_cons] at hend
      have := ih h hend (targets_agree hno ha hb htarget htarget' howner howner' hname)
      rw [List.length_cons, List.length_cons]
      omega

theorem SameNames.symm (h : SameNames path path') : SameNames path' path := by
  induction h with
  | nil => exact .nil
  | cons h _ ih => exact .cons (namesEqual_symm h) ih

theorem Met.congr (h : SameNames path path') (hmet : Met visited path) : Met visited path' := by
  obtain ⟨k, target, hk, v, hv, hsame⟩ := hmet
  have hlen := h.length_eq
  obtain ⟨hlt, rfl⟩ := List.getElem?_eq_some_iff.mp hk
  have hlt' : k < path'.length := hlen ▸ hlt
  have htarget : namesEqual path[k] path'[k] = true := h.get hlt hlt'
  refine ⟨k, path'[k], List.getElem?_eq_getElem hlt', ?_⟩
  obtain hv | hv := List.mem_append.mp hv
  · exact ⟨v, List.mem_append_left _ hv, namesEqual_trans hsame htarget⟩
  · obtain ⟨j, hj, rfl⟩ := List.mem_take_iff_getElem.mp hv
    have hj' : j < path.length := by omega
    have hsame' : namesEqual path[j] path'[j] = true := h.get hj' (hlen ▸ hj')
    refine ⟨path'[j], List.mem_append_right _ (List.mem_take_iff_getElem.mpr ⟨j, by omega, rfl⟩), ?_⟩
    exact namesEqual_trans (namesEqual_symm hsame') (namesEqual_trans hsame htarget)

theorem Met.of_take {n : Nat} (h : Met visited (path.take n)) : Met visited path := by
  obtain ⟨k, target, hk, v, hv, hsame⟩ := h
  rw [List.getElem?_take] at hk
  split_ifs at hk with hlt
  rw [List.take_take, Nat.min_eq_left (by omega)] at hv
  exact ⟨k, target, hk, v, hv, hsame⟩

/-- The walk as a path: it meets nothing, and ends where no alias leads on, or where the next target is
known or one too many. -/
theorem walk_spec (answers : List Answer) : ∀ turns name visited, visited.length ≤ 5 → 6 ≤ visited.length + turns →
    ∃ path, (walk answers turns name visited).2 = visited ++ path ∧ AliasPath answers name path ∧ ¬ Met visited path ∧
      visited.length + path.length ≤ 5 ∧
      (((walk answers turns name visited).1 = some (path.getLastD name) ∧ NoAlias answers (path.getLastD name)) ∨
        (walk answers turns name visited).1 = none ∧ ∃ target, AliasPath answers (path.getLastD name) [target] ∧
          (Met visited (path ++ [target]) ∨ visited.length + path.length = 5)) := by
  have hmet_nil : ∀ visited, ¬ Met visited [] := by
    rintro visited ⟨k, target, hk, -⟩
    cases hk
  intro turns
  induction turns with
  | zero =>
    intro name visited hle hturns
    omega
  | succ turns ih =>
    intro name visited hle hturns
    unfold walk
    cases halias : aliasOf answers name with
    | none => exact ⟨[], by simp, .nil name, hmet_nil visited, hle, .inl ⟨rfl, aliasOf_none.mp halias⟩⟩
    | some target =>
      obtain ⟨answer, hmem, howner, htarget⟩ := aliasOf_some halias
      have hstep : AliasPath answers name [target] := .cons answer hmem howner htarget (.nil target)
      dsimp only
      split_ifs with hstop
      · refine ⟨[], by simp, .nil name, hmet_nil visited, hle, .inr ⟨rfl, target, hstep, hstop.imp (fun hmet => ?_) id⟩⟩
        obtain ⟨v, hv, hsame⟩ := List.any_eq_true.mp hmet
        exact ⟨0, target, rfl, v, List.mem_append_left _ hv, hsame⟩
      · push Not at hstop
        obtain ⟨hnew, hfull⟩ := hstop
        have hshift : ∀ path, Met visited (target :: path) ↔ Met (visited ++ [target]) path := by
          intro path
          constructor
          · rintro ⟨k, t, hk, v, hv, hsame⟩
            cases k with
            | zero =>
              obtain rfl := Option.some.inj hk
              rw [List.take_zero, List.append_nil] at hv
              exact absurd (List.any_eq_true.mpr ⟨v, hv, hsame⟩) hnew
            | succ k => exact ⟨k, t, hk, v, by simpa using hv, hsame⟩
          · rintro ⟨k, t, hk, v, hv, hsame⟩
            exact ⟨k + 1, t, hk, v, by simpa using hv, hsame⟩
        obtain ⟨path, hnames, hpath, hmet, hlen, hend⟩ := ih target (visited ++ [target])
          (by rw [List.length_append, List.length_singleton]; omega)
          (by rw [List.length_append, List.length_singleton]; omega)
        rw [List.length_append, List.length_singleton] at hlen hend
        refine ⟨target :: path, by rw [hnames, List.append_assoc, List.singleton_append],
          .cons answer hmem howner htarget hpath, (hshift path).not.mpr hmet, by rw [List.length_cons]; omega, ?_⟩
        rw [List.getLastD_cons, List.length_cons, ← Nat.add_assoc, Nat.add_right_comm]
        obtain hend | ⟨hnone, t, ht, hwhy⟩ := hend
        · exact .inl hend
        · exact .inr ⟨hnone, t, ht, hwhy.imp_left (hshift (path ++ [t])).mpr⟩

end Paths

/-- The aliases of the answers lead to a visited name, or over more than five names. -/
def Blocked (answers : List Answer) (question : Name) (visited : List Name) : Prop :=
  ∃ path, AliasPath answers question path ∧ (Met visited path ∨ 5 < visited.length + path.length)

theorem walk_none_iff {answers : List Answer} (hno : ¬ Conflict answers) {question : Name}
    (hquestion : validWireName question = true) {visited : List Name} (hlen : visited.length ≤ 5) :
    (walk answers 6 question visited).1 = none ↔ Blocked answers question visited := by
  obtain ⟨path, -, hpath, hmet, hle, ⟨hsome, hend⟩ | ⟨hnone, target, hstep, hwhy⟩⟩ :=
    walk_spec answers 6 question visited hlen (by omega)
  · refine iff_of_false (by rw [hsome]; exact Option.some_ne_none _) ?_
    rintro ⟨path', hpath', hbad⟩
    have hname := namesEqual_refl hquestion
    have hshort := hpath.length_le hno hend hpath' hname
    obtain hmet' | hlong := hbad
    · exact hmet (Met.of_take (hmet'.congr (hpath.agree hno hpath' hname hshort).symm))
    · omega
  · refine iff_of_true hnone ⟨path ++ [target], hpath.append hstep, hwhy.imp_right fun hfull => ?_⟩
    rw [List.length_append, List.length_singleton]
    omega

/-- How a response to `question` is answered, by the format of the message and what its answers say. -/
inductive Reply (message : List UInt8) (question : Name) (visited : List Name) : ParsedResponse → Prop
  | truncated (h : Truncated message) : Reply message question visited (failedWith .truncatedResponse visited)
  | malformed (h : ¬ Truncated message) (hformat : ∀ answers, ¬ Format message question answers) :
      Reply message question visited (failedWith .malformedResponse visited)
  | refused (h : ¬ Truncated message) {answers : List Answer} (hformat : Format message question answers)
      (hcode : rcode message ≠ 0) : Reply message question visited
        (failedWith (if rcode message = 3 then .notFound else .serverFailure) visited)
  | ambiguous (h : ¬ Truncated message) {answers : List Answer} (hformat : Format message question answers)
      (hcode : rcode message = 0) (hconflict : Conflict answers) :
      Reply message question visited (failedWith .malformedResponse visited)
  | judged (h : ¬ Truncated message) {answers : List Answer} (hformat : Format message question answers)
      (hcode : rcode message = 0) (hconflict : ¬ Conflict answers) :
      Reply message question visited (judge answers question visited)

theorem parseSections_reply {message : List UInt8} (hlow : 12 ≤ message.length) (hhigh : message.length ≤ 512)
    (question : Name) {visited : List Name} (hlen : visited.length ≤ 5) :
    Reply message question visited (parseSections message question (failedWith .malformedResponse visited)) := by
  have hflags := readBe16_lt message 2
  unfold parseSections
  dsimp only
  by_cases hheader : ResponseHeader message
  · obtain ⟨-, hresponse, hopcode⟩ := id hheader
    rw [if_neg (by omega)]
    by_cases htrunc : readBe16 message 2 / 2 ^ 9 % 2 = 1
    · rw [if_pos (by omega)]
      exact .truncated ⟨hheader, htrunc⟩
    rw [if_neg (by omega)]
    have hwhole : ¬ Truncated message := fun h => htrunc h.2
    by_cases hcount : readBe16 message 4 = 1
    · rw [if_neg (by omega)]
      cases hecho : echoedQuestion message question with
      | none =>
        refine .malformed hwhole fun answers hformat => ?_
        obtain ⟨-, -, _, _, hecho', -⟩ := (format_iff hhigh).mp hformat
        rw [hecho] at hecho'
        cases hecho'
      | some cursor =>
        dsimp only
        cases hread : readSections message cursor with
        | none =>
          refine .malformed hwhole fun answers hformat => ?_
          obtain ⟨-, -, _, _, hecho', hread', -⟩ := (format_iff hhigh).mp hformat
          rw [hecho] at hecho'
          obtain rfl := Option.some.inj hecho'
          rw [hread] at hread'
          cases hread'
        | some records =>
          obtain ⟨answers, hanswers⟩ := readSections_answers hhigh hread
          have hformat : Format message question answers :=
            (format_iff hhigh).mpr ⟨hheader, hcount, cursor, records, hecho, hread, hanswers⟩
          dsimp only
          by_cases hcode : readBe16 message 2 % 16 = 0
          · rw [if_neg (not_not.mpr hcode)]
            obtain ⟨hconflict, heq⟩ | ⟨hconflict, heq⟩ := parseAnswers_eq hanswers question hlen
            · rw [heq]
              exact .ambiguous hwhole hformat hcode hconflict
            · rw [heq]
              exact .judged hwhole hformat hcode hconflict
          · rw [if_pos hcode]
            exact .refused hwhole hformat hcode
    · rw [if_pos hcount]
      exact .malformed hwhole fun answers hformat => hcount hformat.2.1
  · rw [if_pos]
    · exact .malformed (fun h => hheader h.1) fun answers hformat => hheader hformat.1
    · by_contra hbad
      exact hheader ⟨hlow, by omega, by omega⟩

structure Answered (answers : List Answer) (question : Name) (visited path : List Name) (r : ParsedResponse) : Prop where
  follows : AliasPath answers question path
  stop : NoAlias answers (path.getLastD question)
  names : r.visitedNames = visited ++ path
  hops : r.cnameHops = visited.length + path.length - 1
  addresses : r.addresses = (owned answers (path.getLastD question)).eraseDups.take 8
  success : owned answers (path.getLastD question) ≠ [] → r.disposition = .complete ∧ r.status = .success
  followup : owned answers (path.getLastD question) = [] → path ≠ [] →
    r.disposition = .followup ∧ r.status = .pending ∧ r.followupName = path.getLastD question
  notFound : owned answers (path.getLastD question) = [] → path = [] → r.disposition = .complete ∧ r.status = .notFound

theorem take_eraseDups_eq_nil (found : List Ipv4Address) : found.eraseDups.take 8 = [] ↔ found = [] := by
  cases found with
  | nil => simp
  | cons a found => simp [List.eraseDups_cons]

theorem judge_answered {answers : List Answer} {question : Name} {visited path : List Name}
    (hnames : (walk answers 6 question visited).2 = visited ++ path) (hpath : AliasPath answers question path)
    (hsome : (walk answers 6 question visited).1 = some (path.getLastD question))
    (hend : NoAlias answers (path.getLastD question)) :
    Answered answers question visited path (judge answers question visited) := by
  have hwalk : walk answers 6 question visited = (some (path.getLastD question), visited ++ path) :=
    Prod.ext hsome hnames
  have hlonger : visited.length < (visited ++ path).length ↔ path ≠ [] := by
    rw [List.length_append, ← List.length_pos_iff]
    omega
  have hfound := take_eraseDups_eq_nil (owned answers (path.getLastD question))
  unfold judge
  rw [hwalk]
  dsimp only
  by_cases hnone : owned answers (path.getLastD question) = []
  · rw [if_neg (not_not.mpr (hfound.mpr hnone))]
    by_cases hpath' : path = []
    · rw [if_neg (hlonger.not.mpr (not_not.mpr hpath'))]
      exact ⟨hpath, hend, rfl, by simp [failedWith], by rw [hfound.mpr hnone]; rfl, fun h => absurd hnone h,
        fun _ h => absurd hpath' h, fun _ _ => ⟨rfl, rfl⟩⟩
    · rw [if_pos (hlonger.mpr hpath')]
      exact ⟨hpath, hend, rfl, by simp [failedWith], by rw [hfound.mpr hnone]; rfl, fun h => absurd hnone h,
        fun _ _ => ⟨rfl, rfl, rfl⟩, fun _ h => absurd h hpath'⟩
  · rw [if_pos (hfound.not.mpr hnone)]
    exact ⟨hpath, hend, rfl, by simp [failedWith], rfl, fun _ => ⟨rfl, rfl⟩, fun h => absurd h hnone,
      fun h => absurd h hnone⟩

theorem judge_blocked {answers : List Answer} {question : Name} {visited : List Name}
    (hnone : (walk answers 6 question visited).1 = none) : judge answers question visited =
      failedWith .cnameLoopOrLimit (walk answers 6 question visited).2 := by
  unfold judge
  rw [show walk answers 6 question visited = (none, (walk answers 6 question visited).2) from Prod.ext hnone rfl]

theorem judge_spec {answers : List Answer} (hno : ¬ Conflict answers) {question : Name}
    (hquestion : validWireName question = true) {visited : List Name} (hlen : visited.length ≤ 5) :
    (Blocked answers question visited ∧ (judge answers question visited).status = .cnameLoopOrLimit) ∨
    (¬ Blocked answers question visited ∧ ∃ path, Answered answers question visited path (judge answers question visited)) := by
  have hblocked := walk_none_iff hno hquestion hlen
  obtain ⟨path, hnames, hpath, -, -, ⟨hsome, hend⟩ | ⟨hnone, -⟩⟩ := walk_spec answers 6 question visited hlen (by omega)
  · refine .inr ⟨?_, path, judge_answered hnames hpath hsome hend⟩
    rw [← hblocked, hsome]
    exact Option.some_ne_none _
  · refine .inl ⟨hblocked.mp hnone, ?_⟩
    rw [judge_blocked hnone]
    rfl

theorem Answered.status_cases {answers : List Answer} {question : Name} {visited path : List Name} {r : ParsedResponse}
    (h : Answered answers question visited path r) : r.status = .success ∨ r.status = .pending ∨ r.status = .notFound := by
  by_cases hnone : owned answers (path.getLastD question) = []
  · by_cases hpath : path = []
    · exact .inr (.inr (h.notFound hnone hpath).2)
    · exact .inr (.inl (h.followup hnone hpath).2.1)
  · exact .inl (h.success hnone).2

theorem parseResponse_checked {message : List UInt8} (hlow : 12 ≤ message.length) (hhigh : message.length ≤ 512)
    {question : Name} (hquestion : validWireName question = true) (id : Nat) (visited : List Name) :
    parseResponse message id question visited =
      if readBe16 message 0 ≠ id then { ParsedResponse.malformed with disposition := .ignored, status := .idle }
      else if visited.length > 5 ∨ ¬ ∀ v ∈ visited, validWireName v = true then .malformed
      else if visited ≠ [] ∧ ¬ namesEqual (visited.getLastD []) question = true then
        { ParsedResponse.malformed with visitedNames := visited }
      else parseSections message question
        (failedWith .malformedResponse (if visited = [] then [question] else visited)) := by
  have hall : (visited.all validWireName) = true ↔ ∀ v ∈ visited, validWireName v = true := List.all_eq_true
  unfold parseResponse
  rw [if_neg (by omega), hquestion]
  by_cases hid : readBe16 message 0 ≠ id
  · rw [if_pos hid, if_pos hid]
  rw [if_neg hid, if_neg hid]
  by_cases hmany : visited.length > 5
  · rw [if_pos (.inr (.inr (.inr hmany))), if_pos (.inl hmany)]
  rw [if_neg (by simp only [Bool.not_true, Bool.false_eq_true, false_or]; omega)]
  by_cases hnil : visited = []
  · subst hnil
    rw [if_pos rfl, if_neg (by simp), if_neg (by simp), if_pos rfl]
    rfl
  rw [if_neg hnil, if_neg hnil]
  by_cases hvalid : ∀ v ∈ visited, validWireName v = true
  · have hgood : ¬ (visited.length > 5 ∨ ¬ ∀ v ∈ visited, validWireName v = true) :=
      not_or.mpr ⟨hmany, not_not.mpr hvalid⟩
    rw [hall.mpr hvalid, if_neg (show ¬ (!true) = true by decide), if_neg hgood]
    cases hlast : namesEqual (visited.getLastD []) question with
    | false => rw [if_pos (show (!false) = true by decide), if_pos ⟨hnil, Bool.false_ne_true⟩]
    | true =>
      rw [if_neg (show ¬ (!true) = true by decide), if_neg fun hbad => hbad.2 rfl]
      rfl
  · rw [Bool.eq_false_iff.mpr (hall.not.mpr hvalid), if_pos (by decide), if_pos (.inr hvalid)]

/-- **`parse_response` is exact**: its status follows from the format of the message, from the chain of
aliases in its answers and from the addresses where the chain ends. -/
theorem parseResponse_exact (message : List UInt8) (id : Nat) (question : Name) (visited : List Name)
    (hlow : 2 ≤ message.length) (hhigh : message.length ≤ 512) (hid : readBe16 message 0 = id)
    (hne : visited ≠ []) (hlen : visited.length ≤ 5) (hvalid : ∀ v ∈ visited, validWireName v = true)
    (hlast : namesEqual (visited.getLastD []) question = true) :
    ((parseResponse message id question visited).status = .truncatedResponse ↔ Truncated message) ∧
    (¬ Truncated message →
      ((parseResponse message id question visited).status = .malformedResponse ↔
        (∀ answers, ¬ Format message question answers) ∨
        (rcode message = 0 ∧ ∃ answers, Format message question answers ∧ Conflict answers)) ∧
      ∀ answers, Format message question answers →
        (rcode message = 3 → (parseResponse message id question visited).status = .notFound) ∧
        (rcode message ≠ 0 → rcode message ≠ 3 →
          (parseResponse message id question visited).status = .serverFailure) ∧
        (rcode message = 0 → ¬ Conflict answers →
          ((parseResponse message id question visited).status = .cnameLoopOrLimit ↔ Blocked answers question visited) ∧
          (¬ Blocked answers question visited →
            ∃ path, Answered answers question visited path (parseResponse message id question visited)))) := by
  by_cases hheader : 12 ≤ message.length
  · rw [parseResponse_checked hheader hhigh (namesEqual_iff.mp hlast).2.1, if_neg (not_not.mpr hid), if_neg, if_neg,
      if_neg hne]
    rotate_left
    · exact fun hbad => hbad.2 hlast
    · rintro (hbad | hbad)
      · omega
      · exact hbad hvalid
    have hreply := parseSections_reply hheader hhigh question hlen
    generalize parseSections message question (failedWith .malformedResponse visited) = r at hreply
    -- what the sections say comes before the code in the header, the code before the answers
    cases hreply with
    | truncated h => exact ⟨iff_of_true rfl h, fun hwhole => absurd h hwhole⟩
    | malformed h hformat =>
      refine ⟨iff_of_false (by simp [failedWith]) h, fun _ => ⟨iff_of_true rfl (.inl hformat), ?_⟩⟩
      exact fun answers hanswers => absurd hanswers (hformat answers)
    | @refused h answers hformat hcode =>
      have hstatus : (failedWith (if rcode message = 3 then .notFound else .serverFailure) visited).status =
        if rcode message = 3 then .notFound else .serverFailure := rfl
      rw [hstatus]
      refine ⟨iff_of_false (by split_ifs <;> simp) h, fun _ => ⟨iff_of_false (by split_ifs <;> simp) ?_, ?_⟩⟩
      · rintro (hbad | ⟨hbad, -⟩)
        · exact hbad answers hformat
        · exact hcode hbad
      · exact fun _ _ => ⟨fun h3 => if_pos h3, fun _ h3 => if_neg h3, fun h0 => absurd h0 hcode⟩
    | @ambiguous h answers hformat hcode hconflict =>
      refine ⟨iff_of_false (by simp [failedWith]) h, fun _ =>
        ⟨iff_of_true rfl (.inr ⟨hcode, answers, hformat, hconflict⟩), fun answers' hformat' => ?_⟩⟩
      obtain rfl := format_unique hhigh hformat hformat'
      exact ⟨fun h3 => by omega, fun h0 => absurd hcode h0, fun _ hno => absurd hconflict hno⟩
    | @judged h answers hformat hcode hconflict =>
      have hjudge := judge_spec hconflict (namesEqual_iff.mp hlast).2.1 hlen
      have hstatus : (judge answers question visited).status ≠ .truncatedResponse ∧
          (judge answers question visited).status ≠ .malformedResponse := by
        obtain ⟨-, hloop⟩ | ⟨-, path, hanswered⟩ := hjudge
        · rw [hloop]
          decide
        · obtain hs | hs | hs := hanswered.status_cases <;> rw [hs] <;> decide
      refine ⟨iff_of_false hstatus.1 h, fun _ => ⟨iff_of_false hstatus.2 ?_, fun answers' hformat' => ?_⟩⟩
      · rintro (hbad | ⟨-, answers', hformat', hconflict'⟩)
        · exact hbad answers hformat
        · obtain rfl := format_unique hhigh hformat hformat'
          exact hconflict hconflict'
      · obtain rfl := format_unique hhigh hformat hformat'
        refine ⟨fun h3 => by omega, fun h0 => absurd hcode h0, fun _ _ => ?_⟩
        obtain ⟨hblocked, hloop⟩ | ⟨hblocked, path, hanswered⟩ := hjudge
        · exact ⟨iff_of_true hloop hblocked, fun hno => absurd hblocked hno⟩
        · refine ⟨iff_of_false ?_ hblocked, fun _ => ⟨path, hanswered⟩⟩
          obtain hs | hs | hs := hanswered.status_cases <;> rw [hs] <;> decide
  · have hmalformed : parseResponse message id question visited = .malformed := by
      unfold parseResponse
      rw [if_neg (by omega), if_neg (not_not.mpr hid), if_pos (.inl (by omega))]
    have hnot : ¬ ResponseHeader message := fun h => hheader h.1
    rw [hmalformed]
    refine ⟨iff_of_false (by simp [ParsedResponse.malformed]) fun h => hnot h.1, fun _ => ⟨iff_of_true rfl ?_, ?_⟩⟩
    · exact .inl fun answers hformat => hnot hformat.1
    · exact fun answers hformat => absurd hformat.1 hnot

def smallReply (first second : UInt8) : List UInt8 :=
  [0x12, 0x34, 0x80, 0, 0, 1, 0, 2, 0, 0, 0, 0, 1, 0x61, 0, 0, 1, 0, 1] ++
    [0xC0, 12, 0, 1, 0, 1, 0, 0, 0, 0, 0, 4, 10, 0, 2, first] ++
    [0xC0, 12, 0, 1, 0, 1, 0, 0, 0, 0, 0, 4, 10, 0, 2, second]

def smallAnswer (last : UInt8) : Answer := ⟨[1, 0x61, 0], 1, 1, .address (addressAt [10, 0, 2, last] 0)⟩

theorem parseResponse_exact_small :
    (parseResponse (smallReply 1 2) 0x1234 [1, 0x61, 0] [[1, 0x61, 0]]).status = .success ∧
    ((parseResponse (smallReply 1 2) 0x1234 [1, 0x61, 0] [[1, 0x61, 0]]).status = .truncatedResponse ↔
      Truncated (smallReply 1 2)) :=
  ⟨by decide, (parseResponse_exact (smallReply 1 2) 0x1234 [1, 0x61, 0] [[1, 0x61, 0]] (by decide) (by decide)
    (by decide) (by decide) (by decide) (by decide) (by decide)).1⟩

section Order
variable {answers answers' : List Answer} {question : Name} {visited : List Name}

theorem AliasPath.of_subset (hsub : answers ⊆ answers') {name : Name} {path : List Name}
    (h : AliasPath answers name path) : AliasPath answers' name path := by
  induction h with
  | nil name => exact .nil name
  | cons answer hmem howner htarget _ ih => exact .cons answer (hsub hmem) howner htarget ih

theorem Conflict.of_subset (hsub : answers ⊆ answers') (h : Conflict answers) : Conflict answers' := by
  obtain ⟨a, ha, target, htarget, b, hb, hname, hwhy⟩ := h
  exact ⟨a, hsub ha, target, htarget, b, hsub hb, hname, hwhy⟩

theorem Blocked.of_subset (hsub : answers ⊆ answers') (h : Blocked answers question visited) :
    Blocked answers' question visited := by
  obtain ⟨path, hpath, hwhy⟩ := h
  exact ⟨path, hpath.of_subset hsub, hwhy⟩

theorem walk_longest (hno : ¬ Conflict answers) (hquestion : validWireName question = true) (hlen : visited.length ≤ 5)
    {path path' : List Name} (hnames : (walk answers 6 question visited).2 = visited ++ path)
    (hpath : AliasPath answers question path') (hmet : ¬ Met visited path') (hle : visited.length + path'.length ≤ 5) :
    path'.length ≤ path.length := by
  -- a walk goes as far as any path that meets nothing and stays within five names
  have hname := namesEqual_refl hquestion
  obtain ⟨path₁, hnames₁, hpath₁, -, -, hend⟩ := walk_spec answers 6 question visited hlen (by omega)
  obtain rfl : path₁ = path := List.append_cancel_left (hnames₁.symm.trans hnames)
  obtain ⟨-, hstop⟩ | ⟨-, target, hstep, hwhy⟩ := hend
  · exact hpath₁.length_le hno hstop hpath hname
  · by_contra hlonger
    obtain hmet₁ | hfull := hwhy
    · have hsame := hpath.agree hno (hpath₁.append hstep) hname (by rw [List.length_append, List.length_singleton]; omega)
      exact hmet (Met.of_take (hmet₁.congr hsame.symm))
    · omega

theorem SameNames.getLastD {path path' : List Name} (h : SameNames path path') {name name' : Name}
    (hname : namesEqual name name' = true) : namesEqual (path.getLastD name) (path'.getLastD name') = true := by
  induction h generalizing name name' with
  | nil => exact hname
  | cons h _ ih =>
    rw [List.getLastD_cons, List.getLastD_cons]
    exact ih h

theorem namesEqual_congr_right {a b c : Name} (h : namesEqual b c = true) : namesEqual a b = namesEqual a c := by
  rw [Bool.eq_iff_iff]
  exact ⟨fun hab => namesEqual_trans hab h, fun hac => namesEqual_trans hac (namesEqual_symm h)⟩

theorem owned_congr {name name' : Name} (h : namesEqual name name' = true) : owned answers name = owned answers name' := by
  unfold owned
  simp only [namesEqual_congr_right h]

theorem owned_perm (hperm : answers.Perm answers') (name : Name) : (owned answers name).Perm (owned answers' name) :=
  hperm.filterMap _

theorem nodup_eraseDups {α : Type} [DecidableEq α] : ∀ (n : Nat) (l : List α), l.length ≤ n → l.eraseDups.Nodup := by
  intro n
  induction n with
  | zero =>
    intro l hle
    obtain rfl := List.length_eq_zero_iff.mp (Nat.le_zero.mp hle)
    exact List.nodup_nil
  | succ n ih =>
    intro l hle
    cases l with
    | nil => exact List.nodup_nil
    | cons a l =>
      rw [List.eraseDups_cons, List.nodup_cons, List.mem_eraseDups]
      rw [List.length_cons] at hle
      refine ⟨by simp, ih _ ?_⟩
      have := List.length_filter_le (fun b => !b == a) l
      omega

theorem eraseDups_perm {α : Type} [DecidableEq α] {l l' : List α} (h : l.Perm l') : l.eraseDups.Perm l'.eraseDups := by
  refine (List.perm_ext_iff_of_nodup (nodup_eraseDups _ l le_rfl) (nodup_eraseDups _ l' le_rfl)).mpr fun a => ?_
  rw [List.mem_eraseDups, List.mem_eraseDups, h.mem_iff]

theorem walk_perm (hperm : answers.Perm answers') (hno : ¬ Conflict answers) (hquestion : validWireName question = true)
    (hlen : visited.length ≤ 5) : ∃ path path', (walk answers 6 question visited).2 = visited ++ path ∧
      (walk answers' 6 question visited).2 = visited ++ path' ∧ SameNames path path' := by
  have hno' : ¬ Conflict answers' := fun h => hno (h.of_subset hperm.symm.subset)
  obtain ⟨path, hnames, hpath, hmet, hle, -⟩ := walk_spec answers 6 question visited hlen (by omega)
  obtain ⟨path', hnames', hpath', hmet', hle', -⟩ := walk_spec answers' 6 question visited hlen (by omega)
  have h₁ := walk_longest hno hquestion hlen hnames (hpath'.of_subset hperm.symm.subset) hmet' hle'
  have h₂ := walk_longest hno' hquestion hlen hnames' (hpath.of_subset hperm.subset) hmet hle
  refine ⟨path, path', hnames, hnames', ?_⟩
  have hsame := hpath.agree hno (hpath'.of_subset hperm.symm.subset) (namesEqual_refl hquestion) h₁
  rwa [Nat.le_antisymm h₁ h₂, List.take_length] at hsame

/-- Two results that differ in the letter case of names and the order of addresses only, provided that the
last name owns no more addresses than a result can hold. -/
structure SameResult (answers : List Answer) (r r' : ParsedResponse) : Prop where
  disposition : r.disposition = r'.disposition
  status : r.status = r'.status
  hops : r.cnameHops = r'.cnameHops
  names : SameNames r.visitedNames r'.visitedNames
  followup : r.disposition = .followup → namesEqual r.followupName r'.followupName = true
  addresses : ∀ terminal, r.visitedNames.getLast? = some terminal → (owned answers terminal).eraseDups.length ≤ 8 →
    ∀ a, a ∈ r.addresses ↔ a ∈ r'.addresses

theorem sameResult_failed (status : Status) {names names' : List Name} (h : SameNames names names') :
    SameResult answers (failedWith status names) (failedWith status names') :=
  ⟨rfl, rfl, by simp only [failedWith, h.length_eq], h, fun h => (by cases h), fun _ _ _ _ => Iff.rfl⟩

theorem answered_of_not_blocked (hno : ¬ Conflict answers) (hquestion : validWireName question = true)
    (hlen : visited.length ≤ 5) (hb : ¬ Blocked answers question visited) {path : List Name}
    (hnames : (walk answers 6 question visited).2 = visited ++ path) :
    Answered answers question visited path (judge answers question visited) := by
  obtain ⟨path₁, hnames₁, hpath, -, -, hend⟩ := walk_spec answers 6 question visited hlen (by omega)
  obtain rfl : path₁ = path := List.append_cancel_left (hnames₁.symm.trans hnames)
  obtain ⟨hsome, hstop⟩ | ⟨hnone, -⟩ := hend
  · exact judge_answered hnames hpath hsome hstop
  · exact absurd ((walk_none_iff hno hquestion hlen).mp hnone) hb

theorem getLast?_names {visited path : List Name} {terminal question : Name}
    (hvalid : ∀ v ∈ visited ++ path, validWireName v = true) (hlast : namesEqual (visited.getLastD []) question = true)
    (h : (visited ++ path).getLast? = some terminal) : namesEqual terminal (path.getLastD question) = true := by
  by_cases hpath : path = []
  · subst hpath
    rw [List.append_nil] at h
    rw [List.getLastD_eq_getLast?, h] at hlast
    exact hlast
  · rw [List.getLast?_append_of_ne_nil _ hpath] at h
    rw [List.getLastD_eq_getLast?, h]
    exact namesEqual_refl (hvalid terminal (List.mem_append_right _ (List.mem_of_getLast? h)))

theorem judge_perm (hperm : answers.Perm answers') (hno : ¬ Conflict answers)
    (hlen : visited.length ≤ 5) (hvalid : ∀ v ∈ visited, validWireName v = true)
    (hlast : namesEqual (visited.getLastD []) question = true) :
    SameResult answers (judge answers question visited) (judge answers' question visited) := by
  have hquestion := (namesEqual_iff.mp hlast).2.1
  have hno' : ¬ Conflict answers' := fun h => hno (h.of_subset hperm.symm.subset)
  obtain ⟨path, path', hnames, hnames', hsame⟩ := walk_perm hperm hno hquestion hlen
  have hall : SameNames (visited ++ path) (visited ++ path') :=
    List.rel_append (List.forall₂_same.mpr fun v hv => namesEqual_refl (hvalid v hv)) hsame
  have hblocked := walk_none_iff hno hquestion hlen
  have hblocked' := walk_none_iff hno' hquestion hlen
  have hsub : Blocked answers question visited ↔ Blocked answers' question visited :=
    ⟨fun h => h.of_subset hperm.subset, fun h => h.of_subset hperm.symm.subset⟩
  by_cases hb : Blocked answers question visited
  · rw [judge_blocked (hblocked.mpr hb), judge_blocked (hblocked'.mpr (hsub.mp hb)), hnames, hnames']
    exact sameResult_failed _ hall
  · have h := answered_of_not_blocked hno hquestion hlen hb hnames
    have h' := answered_of_not_blocked hno' hquestion hlen (hsub.not.mp hb) hnames'
    have hterminal := hsame.getLastD (namesEqual_refl hquestion)
    have howned : (owned answers (path.getLastD question)).Perm (owned answers' (path'.getLastD question)) := by
      rw [← owned_congr hterminal]
      exact owned_perm hperm _
    have hnil : path = [] ↔ path' = [] := by
      rw [← List.length_eq_zero_iff, ← List.length_eq_zero_iff, hsame.length_eq]
    have hvalid' : ∀ v ∈ visited ++ path, validWireName v = true := by
      intro v hv
      obtain ⟨i, hi, rfl⟩ := List.getElem_of_mem hv
      exact (namesEqual_iff.mp (hall.get hi (hall.length_eq ▸ hi))).1
    have hsay : (judge answers question visited).disposition = (judge answers' question visited).disposition ∧
        (judge answers question visited).status = (judge answers' question visited).status ∧
        ((judge answers question visited).disposition = .followup →
          namesEqual (judge answers question visited).followupName (judge answers' question visited).followupName = true) := by
      by_cases hfound : owned answers (path.getLastD question) = []
      · have hfound' := List.perm_nil.mp (hfound ▸ howned.symm)
        by_cases hpath : path = []
        · obtain ⟨hd, hs⟩ := h.notFound hfound hpath
          obtain ⟨hd', hs'⟩ := h'.notFound hfound' (hnil.mp hpath)
          rw [hd, hd', hs, hs']
          exact ⟨rfl, rfl, fun hbad => by cases hbad⟩
        · obtain ⟨hd, hs, hf⟩ := h.followup hfound hpath
          obtain ⟨hd', hs', hf'⟩ := h'.followup hfound' (hnil.not.mp hpath)
          rw [hd, hd', hs, hs', hf, hf']
          exact ⟨rfl, rfl, fun _ => hterminal⟩
      · have hfound' : owned answers' (path'.getLastD question) ≠ [] := fun hnone =>
          hfound (List.perm_nil.mp (hnone ▸ howned))
        obtain ⟨hd, hs⟩ := h.success hfound
        obtain ⟨hd', hs'⟩ := h'.success hfound'
        rw [hd, hd', hs, hs']
        exact ⟨rfl, rfl, fun hbad => by cases hbad⟩
    refine ⟨hsay.1, hsay.2.1, by rw [h.hops, h'.hops, hsame.length_eq], by rw [h.names, h'.names]; exact hall,
      hsay.2.2, ?_⟩
    · intro terminal hget hfew a
      rw [h.names] at hget
      rw [owned_congr (getLast?_names hvalid' hlast hget)] at hfew
      have hfew' := (eraseDups_perm howned).length_eq ▸ hfew
      rw [h.addresses, h'.addresses, List.take_of_length_le hfew, List.take_of_length_le hfew',
        List.mem_eraseDups, List.mem_eraseDups, howned.mem_iff]

theorem readBe16_header {message message' : List UInt8} (h : message.take 12 = message'.take 12) {k : Nat} (hk : k < 11) :
    readBe16 message k = readBe16 message' k := by
  have hbyte : ∀ i < 12, byteAt message i = byteAt message' i := by
    intro i hi
    have hi' := congrArg (fun l => l[i]?) h
    simp only [List.getElem?_take, if_pos hi] at hi'
    unfold byteAt
    rw [List.getD_eq_getElem?_getD, List.getD_eq_getElem?_getD, hi']
  unfold readBe16
  rw [hbyte k (by omega), hbyte (k + 1) (by omega)]

theorem parseSections_perm {message message' : List UInt8} (hhigh : message.length ≤ 512) (hhigh' : message'.length ≤ 512)
    (hheader : message.take 12 = message'.take 12) (hformat : Format message question answers)
    (hformat' : Format message' question answers') (hperm : answers.Perm answers')
    (hlen : visited.length ≤ 5) (hvalid : ∀ v ∈ visited, validWireName v = true)
    (hlast : namesEqual (visited.getLastD []) question = true) :
    SameResult answers (parseSections message question (failedWith .malformedResponse visited))
      (parseSections message' question (failedWith .malformedResponse visited)) := by
  have hsame : SameNames visited visited := List.forall₂_same.mpr fun v hv => namesEqual_refl (hvalid v hv)
  have hflags := readBe16_header hheader (show 2 < 11 by decide)
  have htrunc : Truncated message ↔ Truncated message' := by
    unfold Truncated
    rw [hflags]
    exact and_congr_left fun _ => iff_of_true hformat.1 hformat'.1
  have hcode : rcode message = rcode message' := by
    unfold rcode
    rw [hflags]
  have hconflict : Conflict answers ↔ Conflict answers' :=
    ⟨fun h => h.of_subset hperm.subset, fun h => h.of_subset hperm.symm.subset⟩
  have hreply := parseSections_reply hformat.1.1 hhigh question hlen
  have hreply' := parseSections_reply hformat'.1.1 hhigh' question hlen
  generalize parseSections message question (failedWith .malformedResponse visited) = r at hreply
  generalize parseSections message' question (failedWith .malformedResponse visited) = r' at hreply'
  cases hreply with
  | truncated h =>
    cases hreply' with
    | truncated => exact sameResult_failed _ hsame
    | malformed h' => exact absurd (htrunc.mp h) h'
    | refused h' => exact absurd (htrunc.mp h) h'
    | ambiguous h' => exact absurd (htrunc.mp h) h'
    | judged h' => exact absurd (htrunc.mp h) h'
  | malformed _ hbad => exact absurd hformat (hbad answers)
  | refused h _ h0 =>
    cases hreply' with
    | truncated h' => exact absurd (htrunc.mpr h') h
    | malformed _ hbad => exact absurd hformat' (hbad answers')
    | refused =>
      rw [hcode]
      exact sameResult_failed _ hsame
    | ambiguous _ _ h0' => exact absurd (hcode.trans h0') h0
    | judged _ _ h0' => exact absurd (hcode.trans h0') h0
  | @ambiguous h _ hf h0 hc =>
    obtain rfl := format_unique hhigh hformat hf
    cases hreply' with
    | truncated h' => exact absurd (htrunc.mpr h') h
    | malformed _ hbad => exact absurd hformat' (hbad answers')
    | refused _ _ h0' => exact absurd (hcode.symm.trans h0) h0'
    | ambiguous => exact sameResult_failed _ hsame
    | judged _ hf' _ hc' =>
      obtain rfl := format_unique hhigh' hformat' hf'
      exact absurd (hconflict.mp hc) hc'
  | @judged h _ hf h0 hc =>
    obtain rfl := format_unique hhigh hformat hf
    cases hreply' with
    | truncated h' => exact absurd (htrunc.mpr h') h
    | malformed _ hbad => exact absurd hformat' (hbad answers')
    | refused _ _ h0' => exact absurd (hcode.symm.trans h0) h0'
    | ambiguous _ hf' _ hc' =>
      obtain rfl := format_unique hhigh' hformat' hf'
      exact absurd (hconflict.mpr hc') hc
    | judged _ hf' =>
      obtain rfl := format_unique hhigh' hformat' hf'
      exact judge_perm hperm hc hlen hvalid hlast

end Order

/-- **The order of the answers does not matter**: two accepted responses with the same header whose answers
are permutations of each other are answered alike. -/
theorem parseResponse_order (message message' : List UInt8) (id : Nat) (question : Name) (visited : List Name)
    (answers answers' : List Answer) (hhigh : message.length ≤ 512) (hhigh' : message'.length ≤ 512)
    (hheader : message.take 12 = message'.take 12) (hformat : Format message question answers)
    (hformat' : Format message' question answers') (hperm : answers.Perm answers') :
    SameResult answers (parseResponse message id question visited) (parseResponse message' id question visited) := by
  have hlow := hformat.1.1
  have hlow' := hformat'.1.1
  have hid := readBe16_header hheader (show 0 < 11 by decide)
  have hquestion : validWireName question = true := by
    obtain ⟨-, -, name, _, -, -, -, -, hname, -⟩ := hformat
    exact (namesEqual_iff.mp hname).2.1
  have hstop : ∀ r : ParsedResponse, r.disposition ≠ .followup → (∀ v ∈ r.visitedNames, validWireName v = true) →
      SameResult answers r r := by
    intro r hd hvalid
    exact ⟨rfl, rfl, rfl, List.forall₂_same.mpr fun v hv => namesEqual_refl (hvalid v hv), fun h => absurd h hd,
      fun _ _ _ _ => Iff.rfl⟩
  rw [parseResponse_checked hlow hhigh hquestion, parseResponse_checked hlow' hhigh' hquestion, hid]
  by_cases hother : readBe16 message' 0 ≠ id
  · rw [if_pos hother, if_pos hother]
    exact hstop _ (by decide) (by simp [ParsedResponse.malformed])
  rw [if_neg hother, if_neg hother]
  by_cases hbad : visited.length > 5 ∨ ¬ ∀ v ∈ visited, validWireName v = true
  · rw [if_pos hbad, if_pos hbad]
    exact hstop _ (by decide) (by simp [ParsedResponse.malformed])
  rw [if_neg hbad, if_neg hbad]
  push Not at hbad
  by_cases hlast : visited ≠ [] ∧ ¬ namesEqual (visited.getLastD []) question = true
  · rw [if_pos hlast, if_pos hlast]
    exact hstop _ (by simp [ParsedResponse.malformed]) hbad.2
  rw [if_neg hlast, if_neg hlast]
  by_cases hnil : visited = []
  · rw [if_pos hnil]
    refine parseSections_perm hhigh hhigh' hheader hformat hformat' hperm (by simp) ?_ (namesEqual_refl hquestion)
    rw [List.forall_mem_singleton]
    exact hquestion
  · rw [if_neg hnil]
    refine parseSections_perm hhigh hhigh' hheader hformat hformat' hperm hbad.1 hbad.2 ?_
    by_contra hne
    exact hlast ⟨hnil, hne⟩

theorem smallReply_answers {first second : UInt8} (howner : (decodeName (smallReply first second) 19).map Prod.fst = some [1, 0x61, 0])
    (howner' : (decodeName (smallReply first second) 35).map Prod.fst = some [1, 0x61, 0]) :
    [⟨19, 31, 4, 1, 1⟩, ⟨35, 47, 4, 1, 1⟩].map (ResponseRecord.answer? (smallReply first second)) =
      [smallAnswer first, smallAnswer second].map some := by
  have haddress : ∀ message : List UInt8, ∀ offset last, byteAt message offset = 10 → byteAt message (offset + 1) = 0 →
      byteAt message (offset + 2) = 2 → byteAt message (offset + 3) = last →
      addressAt message offset = addressAt [10, 0, 2, last] 0 := by
    intro message offset last h0 h1 h2 h3
    funext ⟨k, hk⟩
    obtain _ | _ | _ | _ | k := k
    · exact h0
    · exact h1
    · exact h2
    · exact h3
    · omega
  rw [List.map_cons, List.map_singleton, ResponseRecord.answer?, ResponseRecord.answer?, recordOwner, recordOwner, howner, howner']
  dsimp only
  rw [if_pos rfl, haddress _ 31 first rfl rfl rfl rfl, haddress _ 47 second rfl rfl rfl rfl]
  rfl

theorem parseResponse_order_small : SameResult [smallAnswer 1, smallAnswer 2]
    (parseResponse (smallReply 1 2) 0x1234 [1, 0x61, 0] [[1, 0x61, 0]])
    (parseResponse (smallReply 2 1) 0x1234 [1, 0x61, 0] [[1, 0x61, 0]]) := by
  refine parseResponse_order (smallReply 1 2) (smallReply 2 1) 0x1234 [1, 0x61, 0] [[1, 0x61, 0]]
    [smallAnswer 1, smallAnswer 2] [smallAnswer 2, smallAnswer 1] (by decide) (by decide) rfl ?_ ?_ (List.Perm.swap _ _ _)
  · exact (format_iff (by decide)).mpr ⟨⟨by decide, by decide, by decide⟩, by decide, 19,
      [⟨19, 31, 4, 1, 1⟩, ⟨35, 47, 4, 1, 1⟩], by decide, by decide +kernel,
      smallReply_answers (by decide) (by decide)⟩
  · exact (format_iff (by decide)).mpr ⟨⟨by decide, by decide, by decide⟩, by decide, 19,
      [⟨19, 31, 4, 1, 1⟩, ⟨35, 47, 4, 1, 1⟩], by decide, by decide +kernel,
      smallReply_answers (by decide) (by decide)⟩

end Linux95.Net.Dns
