import Mathlib.Data.List.Pairwise
import Linux95.Net.Types

/-! The message half of `net/dns.cpp`: names, queries and the parser of responses. A `Name` is the
first `length` bytes of its `wire` array, and the arrays of names and addresses with their counts
are lists; nothing reads the unused ends of the arrays. -/

namespace Linux95.Net.Dns

inductive Status where
  | idle | pending | success | invalidName | notFound | serverFailure | malformedResponse
  | truncatedResponse | cnameLoopOrLimit | timedOut | networkUnavailable | busy
  deriving DecidableEq, Repr

abbrev Name := List UInt8

inductive ParseDisposition where
  | ignored | complete | followup
  deriving DecidableEq, Repr

structure ParsedResponse where
  disposition : ParseDisposition
  status : Status
  followupName : Name
  addresses : List Ipv4Address
  visitedNames : List Name
  cnameHops : Nat
  deriving DecidableEq

def asciiAlnum (value : UInt8) : Bool :=
  (0x41 ≤ value && value ≤ 0x5A) || (0x61 ≤ value && value ≤ 0x7A) ||
    (0x30 ≤ value && value ≤ 0x39)

def asciiLower (value : UInt8) : UInt8 :=
  if 0x41 ≤ value ∧ value ≤ 0x5A then value + 0x20 else value

/-- The label loop of `valid_wire_name`. Every turn consumes a length byte, so as many turns as
there are bytes are enough. -/
def validLabels : Nat → List UInt8 → Bool
  | 0, _ => false
  | _, [] => false
  | turns + 1, labelLength :: rest =>
    if labelLength = 0 then rest = []
    else if labelLength.toNat > 63 ∨ labelLength.toNat > rest.length then false
    else validLabels turns (rest.drop labelLength.toNat)

def validWireName (name : Name) : Bool :=
  if name.length < 1 ∨ name.length > 255 then false else validLabels name.length name

def namesEqual (left right : Name) : Bool :=
  validWireName left && validWireName right && left.map asciiLower == right.map asciiLower

/-- The loops of `encode_hostname` after some whole labels `wire` and the start `label` of one.
A label that is still empty stands at the head of the outer loop. -/
def encodeFrom : List UInt8 → Name → List UInt8 → Option Name
  | [], wire, label =>
    let encoded := if label = [] then wire else wire ++ UInt8.ofNat label.length :: label
    if label.getLastD 0 = 0x2D ∨ encoded.length ≥ 255 then none else some (encoded ++ [0])
  | character :: rest, wire, label =>
    if label = [] ∧ wire.length ≥ 255 then none
    else if character = 0x2E then
      if label = [] ∨ label.getLastD 0 = 0x2D ∨ rest.headD 0 = 0x2E then none
      else encodeFrom rest (wire ++ UInt8.ofNat label.length :: label) []
    else if (!asciiAlnum character && character ≠ 0x2D) ∨ (label = [] ∧ character = 0x2D) ∨
        label.length = 63 ∨ wire.length + 1 + label.length ≥ 255 then none
    else encodeFrom rest wire (label ++ [character])

def encodeHostname : Option (List UInt8) → Option Name
  | none => none
  | some hostname =>
    if hostname.headD 0 = 0 then none else encodeFrom (hostname.takeWhile (· ≠ 0)) [] []

/-- The loop of `decode_name`. `jumps` holds the pointer targets followed so far and `resume` the
cursor after the first of them. A turn follows one of at most 16 pointers or appends one label to
the at most 255 bytes of the name, which bounds the number of turns. -/
def decodeFrom (message : List UInt8) :
    Nat → Nat → List Nat → Option Nat → Name → Option (Name × Nat)
  | 0, _, _, _, _ => none
  | turns + 1, position, jumps, resume, decoded =>
    if position ≥ message.length then none
    else
      let labelLength := (byteAt message position).toNat
      if labelLength / 64 = 3 then
        let target := labelLength % 64 * 2 ^ 8 + (byteAt message (position + 1)).toNat
        if position + 1 ≥ message.length ∨ jumps.length = 16 ∨ target ≥ message.length ∨
            target ∈ jumps then none
        else decodeFrom message turns target (target :: jumps) (some (resume.getD (position + 2)))
          decoded
      else if labelLength / 64 ≠ 0 then none
      else if labelLength = 0 then
        if decoded.length ≥ 255 then none
        else some (decoded ++ [0], resume.getD (position + 1))
      else if labelLength > message.length - (position + 1) ∨
          decoded.length + labelLength + 2 > 255 then none
      else decodeFrom message turns (position + 1 + labelLength) jumps resume
        (decoded ++ (message.drop position).take (labelLength + 1))

def decodeName (message : List UInt8) (cursor : Nat) : Option (Name × Nat) :=
  decodeFrom message 272 cursor [] none []

/-- `build_query`; the buffer of the resolver has 512 bytes. -/
def buildQuery (transactionId : Nat) (question : Name) (capacity : Nat) : Option (List UInt8) :=
  if !validWireName question ∨ capacity < question.length + 16 then none
  else some (be16 transactionId ++ [0x01, 0, 0, 1, 0, 0, 0, 0, 0, 0] ++ question ++ [0, 1, 0, 1])

structure ResponseRecord where
  ownerOffset : Nat
  rdataOffset : Nat
  rdataLength : Nat
  type : Nat
  klass : Nat
  deriving DecidableEq

def recordOwner (message : List UInt8) (record : ResponseRecord) : Option Name :=
  (decodeName message record.ownerOffset).map Prod.fst

def cnameTarget (message : List UInt8) (record : ResponseRecord) : Option Name :=
  match decodeName message record.rdataOffset with
  | none => none
  | some (name, cursor) => if cursor = record.rdataOffset + record.rdataLength then some name else none

def readRecord (message : List UInt8) (cursor : Nat) : Option (ResponseRecord × Nat) :=
  if cursor > message.length ∨ cursor > 512 then none
  else
    match decodeName message cursor with
    | none => none
    | some (_, fields) =>
      if fields > message.length ∨ message.length - fields < 10 then none
      else
        let record : ResponseRecord :=
          { ownerOffset := cursor % 2 ^ 16, rdataOffset := (fields + 10) % 2 ^ 16,
            rdataLength := readBe16 message (fields + 8), type := readBe16 message fields,
            klass := readBe16 message (fields + 2) }
        if record.rdataLength > message.length - (fields + 10) then none
        else if record.type = 1 ∧ record.rdataLength ≠ 4 then none
        else if record.type = 5 ∧ cnameTarget message record = none then none
        else some (record, fields + 10 + record.rdataLength)

def readRecords (message : List UInt8) : Nat → Nat → Option (List ResponseRecord × Nat)
  | 0, cursor => some ([], cursor)
  | n + 1, cursor =>
    match readRecord message cursor with
    | none => none
    | some (record, next) =>
      (readRecords message n next).map fun (records, last) => (record :: records, last)

def ResponseRecord.isAlias (record : ResponseRecord) : Bool := record.type = 5 && record.klass = 1

def ResponseRecord.isAddress (record : ResponseRecord) : Bool := record.type = 1 && record.klass = 1

/-- The inner loop of the check for ambiguous answers: the other record does not contradict an
alias from `aliasOwner` to `aliasTarget`. -/
def agreesWithAlias (message : List UInt8) (aliasOwner aliasTarget : Name)
    (other : ResponseRecord) : Bool :=
  if !other.isAddress && !other.isAlias then true
  else
    match recordOwner message other with
    | none => false
    | some otherOwner =>
      if !namesEqual aliasOwner otherOwner then true
      else if other.type = 1 then false
      else
        match cnameTarget message other with
        | none => false
        | some otherTarget => namesEqual aliasTarget otherTarget

def unambiguous (message : List UInt8) (answers : List ResponseRecord) : Bool :=
  answers.zipIdx.all fun (aliased, i) =>
    if !aliased.isAlias then true
    else
      match recordOwner message aliased, cnameTarget message aliased with
      | some aliasOwner, some aliasTarget =>
        answers.zipIdx.all fun (other, j) => j = i || agreesWithAlias message aliasOwner aliasTarget other
      | _, _ => false

/-- The first alias whose owner is `terminal`; the outer `none` is a record that cannot be read. -/
def findLink (message : List UInt8) (terminal : Name) :
    List ResponseRecord → Option (Option ResponseRecord)
  | [] => some none
  | record :: rest =>
    if !record.isAlias then findLink message terminal rest
    else
      match recordOwner message record with
      | none => none
      | some owner =>
        if namesEqual owner terminal then some (some record) else findLink message terminal rest

/-- The loop that follows aliases from `terminal`: a finished result, or the last name reached and
whether an alias led there. A turn adds one of at most 5 visited names. -/
def followAliases (message : List UInt8) (answers : List ResponseRecord) :
    Nat → Name → Bool → ParsedResponse → ParsedResponse ⊕ (Name × Bool × ParsedResponse)
  | 0, _, _, result => .inl result
  | turns + 1, terminal, followedAlias, result =>
    match findLink message terminal answers with
    | none => .inl result
    | some none => .inr (terminal, followedAlias, result)
    | some (some link) =>
      match cnameTarget message link with
      | none => .inl result
      | some target =>
        if result.visitedNames.any (fun visited => namesEqual visited target) then
          .inl { result with status := .cnameLoopOrLimit }
        else if result.visitedNames.length = 5 then .inl { result with status := .cnameLoopOrLimit }
        else followAliases message answers turns target true
          { result with visitedNames := result.visitedNames ++ [target],
                        cnameHops := result.visitedNames.length }

def collectAddresses (message : List UInt8) (terminal : Name) :
    List ResponseRecord → List Ipv4Address → Bool × List Ipv4Address
  | [], addresses => (true, addresses)
  | record :: rest, addresses =>
    if !record.isAddress then collectAddresses message terminal rest addresses
    else
      match recordOwner message record with
      | none => (false, addresses)
      | some owner =>
        let address : Ipv4Address := fun k => byteAt message (record.rdataOffset + k)
        if namesEqual owner terminal ∧ address ∉ addresses ∧ addresses.length < 8 then
          collectAddresses message terminal rest (addresses ++ [address])
        else collectAddresses message terminal rest addresses

def parseAnswers (message : List UInt8) (expectedQuestion : Name) (answers : List ResponseRecord)
    (result : ParsedResponse) : ParsedResponse :=
  if !unambiguous message answers then result
  else
    match followAliases message answers 6 expectedQuestion false result with
    | .inl result => result
    | .inr (terminal, followedAlias, result) =>
      let (readable, addresses) := collectAddresses message terminal answers result.addresses
      let result := { result with addresses := addresses }
      if !readable then result
      else if addresses ≠ [] then { result with status := .success }
      else if followedAlias then
        { result with disposition := .followup, status := .pending, followupName := terminal }
      else { result with status := .notFound }

def echoedQuestion (message : List UInt8) (expectedQuestion : Name) : Option Nat :=
  match decodeName message 12 with
  | none => none
  | some (question, cursor) =>
    if cursor > message.length ∨ message.length - cursor < 4 ∨ readBe16 message cursor ≠ 1 ∨
        readBe16 message (cursor + 2) ≠ 1 ∨ !namesEqual question expectedQuestion then none
    else some (cursor + 4)

def readSections (message : List UInt8) (cursor : Nat) : Option (List ResponseRecord) :=
  if readBe16 message 6 > 48 then none
  else do
    let (answers, cursor) ← readRecords message (readBe16 message 6) cursor
    let (_, cursor) ← readRecords message (readBe16 message 8) cursor
    let (_, cursor) ← readRecords message (readBe16 message 10) cursor
    if cursor ≠ message.length then none else some answers

def parseSections (message : List UInt8) (expectedQuestion : Name) (result : ParsedResponse) :
    ParsedResponse :=
  let flags := readBe16 message 2
  if flags / 2 ^ 15 = 0 ∨ flags / 2 ^ 11 % 16 ≠ 0 then result
  else if flags / 2 ^ 9 % 2 ≠ 0 then { result with status := .truncatedResponse }
  else if readBe16 message 4 ≠ 1 then result
  else
    match echoedQuestion message expectedQuestion with
    | none => result
    | some cursor =>
      match readSections message cursor with
      | none => result
      | some answers =>
        if flags % 16 ≠ 0 then
          { result with status := if flags % 16 = 3 then .notFound else .serverFailure }
        else parseAnswers message expectedQuestion answers result

def ParsedResponse.malformed : ParsedResponse := ⟨.complete, .malformedResponse, [], [], [], 0⟩

def parseResponse (message : List UInt8) (expectedId : Nat) (expectedQuestion : Name)
    (visitedNames : List Name) : ParsedResponse :=
  if message.length < 2 then .malformed
  else if readBe16 message 0 ≠ expectedId then
    { ParsedResponse.malformed with disposition := .ignored, status := .idle }
  else if message.length < 12 ∨ message.length > 512 ∨ !validWireName expectedQuestion ∨
      visitedNames.length > 5 then .malformed
  else if visitedNames = [] then
    parseSections message expectedQuestion
      { ParsedResponse.malformed with visitedNames := [expectedQuestion] }
  else if !visitedNames.all validWireName then .malformed
  else if !namesEqual (visitedNames.getLastD []) expectedQuestion then
    { ParsedResponse.malformed with visitedNames := visitedNames }
  else
    parseSections message expectedQuestion
      { ParsedResponse.malformed with visitedNames := visitedNames,
                                      cnameHops := visitedNames.length - 1 }

theorem namesEqual_iff {a b : Name} : namesEqual a b = true ↔
    validWireName a = true ∧ validWireName b = true ∧ a.map asciiLower = b.map asciiLower := by
  simp only [namesEqual, Bool.and_eq_true, beq_iff_eq, and_assoc]

theorem namesEqual_symm {a b : Name} (h : namesEqual a b = true) : namesEqual b a = true := by
  obtain ⟨ha, hb, hab⟩ := namesEqual_iff.mp h
  exact namesEqual_iff.mpr ⟨hb, ha, hab.symm⟩

theorem namesEqual_trans {a b c : Name} (h : namesEqual a b = true) (h' : namesEqual b c = true) :
    namesEqual a c = true := by
  obtain ⟨ha, -, hab⟩ := namesEqual_iff.mp h
  obtain ⟨-, hc, hbc⟩ := namesEqual_iff.mp h'
  exact namesEqual_iff.mpr ⟨ha, hc, hab.trans hbc⟩

def Distinct (names : List Name) : Prop := names.Pairwise fun a b => namesEqual a b = false

theorem Distinct.eq_of_namesEqual {names : List Name} (h : Distinct names) {a b : Name}
    (ha : a ∈ names) (hb : b ∈ names) (hab : namesEqual a b = true) : a = b := by
  by_contra hne
  have : Std.Symm fun a b : Name => namesEqual a b = false := by
    refine ⟨fun x y hxy => ?_⟩
    rw [Bool.eq_false_iff] at hxy ⊢
    exact fun hyx => hxy (namesEqual_symm hyx)
  have hfalse : namesEqual a b = false := List.Pairwise.forall h ha hb hne
  rw [hab] at hfalse
  exact nomatch hfalse

structure Continues (earlier later : List Name) : Prop where
  distinct : Distinct earlier → Distinct later
  length_le : earlier.length ≤ 5 → later.length ≤ 5
  prefixed : earlier <+: later

theorem Continues.refl (names : List Name) : Continues names names :=
  ⟨id, id, List.prefix_refl names⟩

theorem Continues.trans {a b c : List Name} (h : Continues a b) (h' : Continues b c) :
    Continues a c :=
  ⟨fun ha => h'.distinct (h.distinct ha), fun ha => h'.length_le (h.length_le ha),
    h.prefixed.trans h'.prefixed⟩

theorem Continues.getLast_new {earlier later : List Name} (h : Continues earlier later)
    (hd : Distinct later) (hlt : earlier.length < later.length) {last name : Name}
    (hlast : later.getLast? = some last) (hname : name ∈ earlier) :
    namesEqual name last = false := by
  -- the last name of a longer continuation is none of the earlier ones
  obtain ⟨rest, rfl⟩ := h.prefixed
  have hrest : rest ≠ [] := by
    rintro rfl
    simp at hlt
  rw [List.getLast?_append_of_ne_nil _ hrest] at hlast
  exact (List.pairwise_append.mp hd).2.2 name hname last (List.mem_of_getLast? hlast)

theorem continues_snoc {names : List Name} {target : Name}
    (hnew : names.any (fun visited => namesEqual visited target) = false)
    (hlen : names.length ≠ 5) : Continues names (names ++ [target]) where
  distinct hd := by
    rw [List.any_eq_false] at hnew
    refine List.pairwise_append.mpr ⟨hd, List.pairwise_singleton _ _, ?_⟩
    intro a ha b hb
    rw [List.mem_singleton.mp hb]
    exact Bool.eq_false_iff.mpr (hnew a ha)
  length_le h := by
    rw [List.length_append, List.length_singleton]
    omega
  prefixed := List.prefix_append _ _

def Status.IsFailure (s : Status) : Prop :=
  s = .notFound ∨ s = .serverFailure ∨ s = .malformedResponse ∨ s = .truncatedResponse ∨
    s = .cnameLoopOrLimit

theorem followAliases_spec (message : List UInt8) (answers : List ResponseRecord) :
    ∀ turns terminal followed result, result.disposition = .complete →
      result.status = .malformedResponse →
      (∀ r, followAliases message answers turns terminal followed result = .inl r →
        r.disposition = .complete ∧ r.status.IsFailure) ∧
      (∀ last followed' r,
        followAliases message answers turns terminal followed result = .inr (last, followed', r) →
        r.disposition = .complete ∧ r.status = .malformedResponse ∧
        Continues result.visitedNames r.visitedNames ∧
        (followed' = true → followed = true ∧ last = terminal ∧
            r.visitedNames = result.visitedNames ∨
          r.visitedNames.getLast? = some last ∧
            result.visitedNames.length < r.visitedNames.length)) := by
  have hmal : Status.IsFailure .malformedResponse := .inr (.inr (.inl rfl))
  have hloop : Status.IsFailure .cnameLoopOrLimit := .inr (.inr (.inr (.inr rfl)))
  intro turns
  induction turns with
  | zero =>
    intro terminal followed result hd hs
    refine ⟨fun r h => ?_, fun _ _ _ h => nomatch h⟩
    rw [← Sum.inl.inj h, hs]
    exact ⟨hd, hmal⟩
  | succ turns ih =>
    intro terminal followed result hd hs
    unfold followAliases
    cases hlink : findLink message terminal answers with
    | none =>
      refine ⟨fun r h => ?_, fun _ _ _ h => nomatch h⟩
      rw [← Sum.inl.inj h, hs]
      exact ⟨hd, hmal⟩
    | some link =>
      cases link with
      | none =>
        refine ⟨fun _ h => (nomatch h), fun last followed' r h => ?_⟩
        simp only [Sum.inr.injEq, Prod.mk.injEq] at h
        obtain ⟨rfl, rfl, rfl⟩ := h
        exact ⟨hd, hs, .refl _, fun hf => .inl ⟨hf, rfl, rfl⟩⟩
      | some link =>
        dsimp only
        cases htarget : cnameTarget message link with
        | none =>
          refine ⟨fun r h => ?_, fun _ _ _ h => nomatch h⟩
          rw [← Sum.inl.inj h, hs]
          exact ⟨hd, hmal⟩
        | some target =>
          dsimp only
          split_ifs with hvisited hfull
          · refine ⟨fun r h => ?_, fun _ _ _ h => nomatch h⟩
            rw [← Sum.inl.inj h]
            exact ⟨hd, hloop⟩
          · refine ⟨fun r h => ?_, fun _ _ _ h => nomatch h⟩
            rw [← Sum.inl.inj h]
            exact ⟨hd, hloop⟩
          · have hsnoc := continues_snoc (Bool.eq_false_iff.mpr hvisited) hfull
            obtain ⟨hinl, hinr⟩ := ih target true { result with
              visitedNames := result.visitedNames ++ [target],
              cnameHops := result.visitedNames.length } hd hs
            refine ⟨hinl, fun last followed' r h => ?_⟩
            obtain ⟨hd', hs', hcont, hlast⟩ := hinr last followed' r h
            refine ⟨hd', hs', hsnoc.trans hcont, fun hf => .inr ?_⟩
            have hlen := hcont.prefixed.length_le
            rw [List.length_append, List.length_singleton] at hlen
            rcases hlast hf with ⟨-, rfl, hsame⟩ | ⟨hget, -⟩
            · rw [hsame]
              exact ⟨List.getLast?_concat, by simp⟩
            · exact ⟨hget, by omega⟩

def Judged (message : List UInt8) (question : Name) (start : List Name) (p : ParsedResponse) : Prop :=
  (p.disposition = .complete ∧ p.status.IsFailure) ∨
  (p.disposition = .complete ∧ p.status = .success ∧ (echoedQuestion message question).isSome) ∨
  (p.disposition = .followup ∧ Continues start p.visitedNames ∧
    p.visitedNames.getLast? = some p.followupName ∧ start.length < p.visitedNames.length)

theorem judged_ite {message : List UInt8} {question : Name} {start : List Name} {c : Prop}
    [Decidable c] {p p' : ParsedResponse} (h : c → Judged message question start p)
    (h' : ¬c → Judged message question start p') :
    Judged message question start (if c then p else p') := by
  split
  · exact h ‹_›
  · exact h' ‹_›

theorem parseAnswers_judged {message : List UInt8} {question : Name}
    (hecho : (echoedQuestion message question).isSome) (answers : List ResponseRecord)
    {result : ParsedResponse} (hd : result.disposition = .complete)
    (hs : result.status = .malformedResponse) :
    Judged message question result.visitedNames (parseAnswers message question answers result) := by
  have hmal : Status.IsFailure .malformedResponse := .inr (.inr (.inl rfl))
  obtain ⟨hinl, hinr⟩ := followAliases_spec message answers 6 question false result hd hs
  unfold parseAnswers
  split_ifs
  · exact .inl ⟨hd, hs ▸ hmal⟩
  split
  · exact .inl (hinl _ ‹_›)
  · rename_i last followed r hr
    obtain ⟨hd', hs', hcont, hlast⟩ := hinr last followed r hr
    dsimp only
    split_ifs with hreadable haddresses hfollowed
    · exact .inl ⟨hd', hs' ▸ hmal⟩
    · exact .inr (.inl ⟨hd', rfl, hecho⟩)
    · rcases hlast hfollowed with ⟨hno, -, -⟩ | ⟨hget, hlen⟩
      · exact nomatch hno
      · exact .inr (.inr ⟨rfl, hcont, hget, hlen⟩)
    · exact .inl ⟨hd', .inl rfl⟩

theorem parseSections_judged (message : List UInt8) (question : Name) {result : ParsedResponse}
    (hd : result.disposition = .complete) (hs : result.status = .malformedResponse) :
    Judged message question result.visitedNames (parseSections message question result) := by
  have hmal : Status.IsFailure .malformedResponse := .inr (.inr (.inl rfl))
  have hstop : Judged message question result.visitedNames result := .inl ⟨hd, hs ▸ hmal⟩
  unfold parseSections
  dsimp only
  refine judged_ite (fun _ => hstop) fun _ => judged_ite (fun _ => ?_) fun _ =>
    judged_ite (fun _ => hstop) fun _ => ?_
  · exact .inl ⟨hd, .inr (.inr (.inr (.inl rfl)))⟩
  cases hecho : echoedQuestion message question with
  | none => exact hstop
  | some cursor =>
    dsimp only
    cases readSections message cursor with
    | none => exact hstop
    | some answers =>
      refine judged_ite (fun _ => .inl ⟨hd, ?_⟩) fun _ =>
        parseAnswers_judged (by rw [hecho]; rfl) answers hd hs
      dsimp only
      split_ifs
      · exact .inl rfl
      · exact .inr (.inl rfl)

/-- **What `parse_response` can answer** to a question reached over `visited`. -/
theorem parseResponse_judged (message : List UInt8) (id : Nat) (question : Name)
    {visited : List Name} (hvisited : visited ≠ []) :
    (parseResponse message id question visited).disposition = .ignored ∧ readBe16 message 0 ≠ id ∨
    (parseResponse message id question visited).disposition = .complete ∧
      (parseResponse message id question visited).status.IsFailure ∨
    readBe16 message 0 = id ∧
      Judged message question visited (parseResponse message id question visited) := by
  have hmal : Status.IsFailure .malformedResponse := .inr (.inr (.inl rfl))
  unfold parseResponse
  split_ifs with h0 h1 h2 h3 h4
  · exact .inr (.inl ⟨rfl, hmal⟩)
  · exact .inl ⟨rfl, h1⟩
  · exact .inr (.inl ⟨rfl, hmal⟩)
  · exact .inr (.inl ⟨rfl, hmal⟩)
  · exact .inr (.inl ⟨rfl, hmal⟩)
  · push Not at h1
    exact .inr (.inr ⟨h1, parseSections_judged message question rfl rfl⟩)

theorem parseResponse_otherId {message : List UInt8} {id : Nat} (question : Name)
    (visited : List Name) (hlen : 2 ≤ message.length) (hid : readBe16 message 0 ≠ id) :
    (parseResponse message id question visited).disposition = .ignored := by
  unfold parseResponse
  rw [if_neg (by omega), if_pos hid]

end Linux95.Net.Dns
