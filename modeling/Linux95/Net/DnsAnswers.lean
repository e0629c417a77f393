import Linux95.Net.DnsNames
import Linux95.Net.Packets

/-! The answers of a response as data: the records with their names expanded, the format that
`parse_response` accepts, and the judgement on the answers, which depends on nothing else. -/

namespace Linux95.Net.Dns

inductive Rdata where
  | address (address : Ipv4Address)
  | alias (target : Name)
  | other
  deriving DecidableEq

structure Answer where
  owner : Name
  type : Nat
  klass : Nat
  data : Rdata
  deriving DecidableEq

/-- A record at `cursor` that ends before `next`: a name, ten bytes of fields and as many bytes of data
as they say. Address data has 4 bytes, and an alias is one name that fills the data. -/
def RecordAt (message : List UInt8) (cursor : Nat) (answer : Answer) (next : Nat) : Prop :=
  ∃ fields, Expansion message cursor answer.owner fields ∧ fields + 10 ≤ message.length ∧
    answer.type = readBe16 message fields ∧ answer.klass = readBe16 message (fields + 2) ∧
    next = fields + 10 + readBe16 message (fields + 8) ∧ next ≤ message.length ∧
    ((answer.type = 1 ∧ next = fields + 14 ∧ answer.data = .address (addressAt message (fields + 10))) ∨
      (answer.type = 5 ∧ ∃ target, Expansion message (fields + 10) target next ∧ answer.data = .alias target) ∨
      (answer.type ≠ 1 ∧ answer.type ≠ 5 ∧ answer.data = .other))

inductive RecordsAt (message : List UInt8) : Nat → List Answer → Nat → Prop
  | nil (cursor : Nat) : RecordsAt message cursor [] cursor
  | cons {cursor next last : Nat} {answer : Answer} {answers : List Answer} (h : RecordAt message cursor answer next)
      (hs : RecordsAt message next answers last) : RecordsAt message cursor (answer :: answers) last

def ResponseHeader (message : List UInt8) : Prop :=
  12 ≤ message.length ∧ readBe16 message 2 / 2 ^ 15 = 1 ∧ readBe16 message 2 / 2 ^ 11 % 16 = 0

def Truncated (message : List UInt8) : Prop := ResponseHeader message ∧ readBe16 message 2 / 2 ^ 9 % 2 = 1

def rcode (message : List UInt8) : Nat := readBe16 message 2 % 16

/-- The accepted format: one question for the addresses of `question`, and three sections of records, as
many as the header says, up to the end of the message. -/
def Format (message : List UInt8) (question : Name) (answers : List Answer) : Prop :=
  ResponseHeader message ∧ readBe16 message 4 = 1 ∧
    ∃ name cursor, Expansion message 12 name cursor ∧ cursor + 4 ≤ message.length ∧
      readBe16 message cursor = 1 ∧ readBe16 message (cursor + 2) = 1 ∧ namesEqual name question = true ∧
      ∃ authority additional cursor₁ cursor₂, RecordsAt message (cursor + 4) answers cursor₁ ∧
        RecordsAt message cursor₁ authority cursor₂ ∧ RecordsAt message cursor₂ additional message.length ∧
        answers.length = readBe16 message 6 ∧ authority.length = readBe16 message 8 ∧
        additional.length = readBe16 message 10

def Answer.target? (answer : Answer) : Option Name :=
  match answer.data with
  | .alias target => if answer.klass = 1 then some target else none
  | _ => none

def Answer.address? (answer : Answer) : Option Ipv4Address :=
  match answer.data with
  | .address address => if answer.klass = 1 then some address else none
  | _ => none

/-- The owner of an alias also owns an address or an alias with another target. -/
def Conflict (answers : List Answer) : Prop :=
  ∃ a ∈ answers, ∃ target, a.target? = some target ∧ ∃ b ∈ answers, namesEqual a.owner b.owner = true ∧
    (b.address? ≠ none ∨ ∃ target', b.target? = some target' ∧ namesEqual target target' = false)

def ResponseRecord.answer? (message : List UInt8) (record : ResponseRecord) : Option Answer :=
  match recordOwner message record with
  | none => none
  | some owner =>
    if record.type = 1 then some ⟨owner, record.type, record.klass, .address (addressAt message record.rdataOffset)⟩
    else if record.type = 5 then
      match cnameTarget message record with
      | none => none
      | some target => some ⟨owner, record.type, record.klass, .alias target⟩
    else some ⟨owner, record.type, record.klass, .other⟩

section Format
variable {message : List UInt8}

theorem Expansion.bounds {position next : Nat} {name : Name} (h : Expansion message position name next) :
    position < next ∧ next ≤ message.length := by
  obtain ⟨_, h, -⟩ := h
  exact h.next_bounds

theorem cnameTarget_iff {record : ResponseRecord} {target : Name} : cnameTarget message record = some target ↔
    Expansion message record.rdataOffset target (record.rdataOffset + record.rdataLength) := by
  rw [← decodeName_iff]
  unfold cnameTarget
  cases decodeName message record.rdataOffset with
  | none => simp
  | some found =>
    obtain ⟨name, cursor⟩ := found
    dsimp only
    split_ifs with h
    · simp [h]
    · simp [h]

theorem readRecord_iff (hlen : message.length ≤ 512) {cursor next : Nat} {record : ResponseRecord} :
    readRecord message cursor = some (record, next) ↔ ∃ owner fields, Expansion message cursor owner fields ∧
      fields + 10 ≤ message.length ∧
      record = ⟨cursor, fields + 10, readBe16 message (fields + 8), readBe16 message fields,
        readBe16 message (fields + 2)⟩ ∧
      next = fields + 10 + record.rdataLength ∧ next ≤ message.length ∧
      (record.type = 1 → record.rdataLength = 4) ∧ (record.type = 5 → cnameTarget message record ≠ none) := by
  unfold readRecord
  constructor
  · intro h
    split_ifs at h with hcursor
    cases hname : decodeName message cursor with
    | none =>
      rw [hname] at h
      cases h
    | some found =>
      obtain ⟨owner, fields⟩ := found
      rw [hname] at h
      have hexp := decodeName_iff.mp hname
      have hbounds := hexp.bounds
      dsimp only at h
      rw [Nat.mod_eq_of_lt (show cursor < 2 ^ 16 by omega)] at h
      split_ifs at h with hfields hdata haddress halias
      rw [Nat.mod_eq_of_lt (show fields + 10 < 2 ^ 16 by omega)] at h halias
      simp only [Option.some.injEq, Prod.mk.injEq] at h
      obtain ⟨rfl, rfl⟩ := h
      refine ⟨owner, fields, hexp, by omega, rfl, rfl, by omega, fun h1 => ?_, fun h5 hnone => ?_⟩
      · by_contra hne
        exact haddress ⟨h1, hne⟩
      · exact halias ⟨h5, hnone⟩
  · rintro ⟨owner, fields, hexp, hin, rfl, rfl, hnext, haddress, halias⟩
    have hbounds := hexp.bounds
    dsimp only at hnext haddress halias ⊢
    rw [if_neg (by omega), decodeName_iff.mpr hexp]
    dsimp only
    rw [if_neg (by omega), if_neg (by omega), Nat.mod_eq_of_lt (show cursor < 2 ^ 16 by omega),
      Nat.mod_eq_of_lt (show fields + 10 < 2 ^ 16 by omega), if_neg (fun h => h.2 (haddress h.1)),
      if_neg (fun h => halias h.1 h.2)]

theorem recordAt_iff (hlen : message.length ≤ 512) {cursor next : Nat} {answer : Answer} :
    RecordAt message cursor answer next ↔
      ∃ record, readRecord message cursor = some (record, next) ∧ record.answer? message = some answer := by
  -- `read_record` reads the records, and what it stores of them is enough to decode them again
  simp only [readRecord_iff hlen]
  have howner : ∀ (record : ResponseRecord) (name : Name) (fields : Nat),
      Expansion message record.ownerOffset name fields → recordOwner message record = some name := by
    intro record name fields h
    unfold recordOwner
    rw [decodeName_iff.mpr h]
    rfl
  obtain ⟨owner, type, klass, data⟩ := answer
  constructor
  · rintro ⟨fields, hexp, hin, rfl, rfl, rfl, hnext, hdata⟩
    refine ⟨⟨cursor, fields + 10, readBe16 message (fields + 8), readBe16 message fields,
      readBe16 message (fields + 2)⟩, ⟨owner, fields, hexp, hin, rfl, rfl, hnext, ?_, ?_⟩, ?_⟩
    · intro h1
      obtain ⟨-, hfour, -⟩ | ⟨h5, -⟩ | ⟨hne, -⟩ := hdata
      · dsimp only at hfour ⊢
        omega
      · dsimp only at h1 h5
        omega
      · exact absurd h1 hne
    · intro h5 hnone
      obtain ⟨h1, -⟩ | ⟨-, target, htarget, -⟩ | ⟨-, hne, -⟩ := hdata
      · dsimp only at h1 h5
        omega
      · rw [cnameTarget_iff.mpr htarget] at hnone
        cases hnone
      · exact hne h5
    · unfold ResponseRecord.answer?
      rw [howner _ _ _ hexp]
      dsimp only at hdata ⊢
      obtain ⟨h1, -, rfl⟩ | ⟨h5, target, htarget, rfl⟩ | ⟨hne, hne', rfl⟩ := hdata
      · rw [if_pos h1]
      · have htarget' := (@cnameTarget_iff message ⟨cursor, fields + 10, readBe16 message (fields + 8),
          readBe16 message fields, readBe16 message (fields + 2)⟩ target).mpr htarget
        rw [if_neg (by omega), if_pos h5, htarget']
      · rw [if_neg hne, if_neg hne']
  · rintro ⟨record, ⟨owner', fields, hexp, hin, hrecord, rfl, hnext, haddress, halias⟩, hanswer⟩
    unfold ResponseRecord.answer? at hanswer
    rw [howner record owner' fields (by rw [hrecord]; exact hexp)] at hanswer
    have hlength : record.rdataLength = readBe16 message (fields + 8) := by rw [hrecord]
    have htype : record.type = readBe16 message fields := by rw [hrecord]
    have hklass : record.klass = readBe16 message (fields + 2) := by rw [hrecord]
    have hoffset : record.rdataOffset = fields + 10 := by rw [hrecord]
    dsimp only at hanswer
    split_ifs at hanswer with h1 h5
    · simp only [Option.some.injEq, Answer.mk.injEq] at hanswer
      obtain ⟨rfl, rfl, rfl, rfl⟩ := hanswer
      refine ⟨fields, hexp, hin, htype, hklass, by omega, hnext, .inl ⟨h1, ?_, by rw [hoffset]⟩⟩
      have := haddress h1
      omega
    · cases htarget : cnameTarget message record with
      | none => exact absurd htarget (halias h5)
      | some target =>
        rw [htarget] at hanswer
        simp only [Option.some.injEq, Answer.mk.injEq] at hanswer
        obtain ⟨rfl, rfl, rfl, rfl⟩ := hanswer
        refine ⟨fields, hexp, hin, htype, hklass, by omega, hnext, .inr (.inl ⟨h5, target, ?_, rfl⟩)⟩
        rw [← hoffset]
        exact cnameTarget_iff.mp htarget
    · simp only [Option.some.injEq, Answer.mk.injEq] at hanswer
      obtain ⟨rfl, rfl, rfl, rfl⟩ := hanswer
      exact ⟨fields, hexp, hin, htype, hklass, by omega, hnext, .inr (.inr ⟨h1, h5, rfl⟩)⟩

theorem RecordAt.bounds {cursor next : Nat} {answer : Answer} (h : RecordAt message cursor answer next) :
    cursor + 11 ≤ next ∧ next ≤ message.length := by
  obtain ⟨fields, hexp, -, -, -, hnext, hle, -⟩ := h
  have := hexp.bounds
  omega

theorem RecordsAt.bounds {cursor last : Nat} {answers : List Answer} (h : RecordsAt message cursor answers last) :
    cursor + 11 * answers.length ≤ last := by
  induction h with
  | nil => simp
  | cons h _ ih =>
    have := h.bounds
    rw [List.length_cons]
    omega

theorem RecordsAt.read (hlen : message.length ≤ 512) {cursor last : Nat} {answers : List Answer}
    (h : RecordsAt message cursor answers last) : ∃ records,
      readRecords message answers.length cursor = some (records, last) ∧
      records.map (ResponseRecord.answer? message) = answers.map some := by
  induction h with
  | nil => exact ⟨[], rfl, rfl⟩
  | cons h _ ih =>
    obtain ⟨record, hrecord, hanswer⟩ := (recordAt_iff hlen).mp h
    obtain ⟨records, hrecords, hanswers⟩ := ih
    refine ⟨record :: records, ?_, by rw [List.map_cons, List.map_cons, hanswer, hanswers]⟩
    rw [List.length_cons, readRecords, hrecord]
    dsimp only
    rw [hrecords]
    rfl

theorem readRecord_answer (hlen : message.length ≤ 512) {cursor next : Nat} {record : ResponseRecord}
    (h : readRecord message cursor = some (record, next)) : ∃ answer, record.answer? message = some answer := by
  obtain ⟨owner, fields, hexp, -, hrecord, -, -, -, halias⟩ := (readRecord_iff hlen).mp h
  have howner : recordOwner message record = some owner := by
    unfold recordOwner
    rw [hrecord, decodeName_iff.mpr hexp]
    rfl
  unfold ResponseRecord.answer?
  rw [howner]
  dsimp only
  split_ifs with h1 h5
  · exact ⟨_, rfl⟩
  · obtain ⟨target, htarget⟩ := Option.ne_none_iff_exists'.mp (halias h5)
    rw [htarget]
    exact ⟨_, rfl⟩
  · exact ⟨_, rfl⟩

theorem readRecords_answers (hlen : message.length ≤ 512) : ∀ {n cursor last : Nat} {records : List ResponseRecord},
    readRecords message n cursor = some (records, last) → ∃ answers : List Answer, answers.length = n ∧
      RecordsAt message cursor answers last ∧ records.map (ResponseRecord.answer? message) = answers.map some := by
  intro n
  induction n with
  | zero =>
    intro cursor last records h
    simp only [readRecords, Option.some.injEq, Prod.mk.injEq] at h
    obtain ⟨rfl, rfl⟩ := h
    exact ⟨[], rfl, .nil cursor, rfl⟩
  | succ n ih =>
    intro cursor last records h
    rw [readRecords] at h
    cases hrecord : readRecord message cursor with
    | none =>
      rw [hrecord] at h
      cases h
    | some found =>
      obtain ⟨record, next⟩ := found
      rw [hrecord] at h
      obtain ⟨⟨records', last'⟩, hrecords, heq⟩ := Option.map_eq_some_iff.mp h
      simp only [Prod.mk.injEq] at heq
      obtain ⟨rfl, rfl⟩ := heq
      obtain ⟨answers, rfl, hs, hanswers⟩ := ih hrecords
      obtain ⟨answer, hanswer⟩ := readRecord_answer hlen hrecord
      exact ⟨answer :: answers, rfl, .cons ((recordAt_iff hlen).mpr ⟨record, hrecord, hanswer⟩) hs,
        by rw [List.map_cons, List.map_cons, hanswer, hanswers]⟩

theorem echoedQuestion_iff {question : Name} {next : Nat} : echoedQuestion message question = some next ↔
    ∃ name cursor, next = cursor + 4 ∧ Expansion message 12 name cursor ∧ cursor + 4 ≤ message.length ∧
      readBe16 message cursor = 1 ∧ readBe16 message (cursor + 2) = 1 ∧ namesEqual name question = true := by
  unfold echoedQuestion
  constructor
  · intro h
    cases hname : decodeName message 12 with
    | none =>
      rw [hname] at h
      cases h
    | some found =>
      obtain ⟨name, cursor⟩ := found
      rw [hname] at h
      dsimp only at h
      split_ifs at h with hbad
      push Not at hbad
      obtain ⟨hin, hroom, htype, hklass, heq⟩ := hbad
      exact ⟨name, cursor, (Option.some.inj h).symm, decodeName_iff.mp hname, by omega, htype, hklass, by simpa using heq⟩
  · rintro ⟨name, cursor, rfl, hexp, hin, htype, hklass, heq⟩
    rw [decodeName_iff.mpr hexp]
    dsimp only
    rw [if_neg]
    rw [htype, hklass, heq]
    rintro (hbad | hbad | hbad | hbad | hbad)
    · omega
    · omega
    · exact hbad rfl
    · exact hbad rfl
    · cases hbad

theorem readSections_iff (hlen : message.length ≤ 512) {cursor : Nat} (hcursor : 17 ≤ cursor) {answers : List Answer} :
    (∃ records, readSections message cursor = some records ∧
      records.map (ResponseRecord.answer? message) = answers.map some) ↔
    ∃ authority additional cursor₁ cursor₂, RecordsAt message cursor answers cursor₁ ∧
      RecordsAt message cursor₁ authority cursor₂ ∧ RecordsAt message cursor₂ additional message.length ∧
      answers.length = readBe16 message 6 ∧ authority.length = readBe16 message 8 ∧
      additional.length = readBe16 message 10 := by
  unfold readSections
  constructor
  · rintro ⟨records, h, hanswers⟩
    split_ifs at h with hmany
    simp only [Option.bind_eq_bind, Option.bind_eq_some_iff, Prod.exists] at h
    obtain ⟨records₁, cursor₁, h₁, records₂, cursor₂, h₂, records₃, cursor₃, h₃, h⟩ := h
    split_ifs at h with hend
    obtain rfl := Option.some.inj h
    push Not at hend
    subst hend
    obtain ⟨answers', hlen₁, hat₁, hanswers'⟩ := readRecords_answers hlen h₁
    obtain ⟨authority, hlen₂, hat₂, -⟩ := readRecords_answers hlen h₂
    obtain ⟨additional, hlen₃, hat₃, -⟩ := readRecords_answers hlen h₃
    obtain rfl : answers' = answers := List.map_injective_iff.mpr (Option.some_injective _) (hanswers'.symm.trans hanswers)
    exact ⟨authority, additional, cursor₁, cursor₂, hat₁, hat₂, hat₃, hlen₁, hlen₂, hlen₃⟩
  · rintro ⟨authority, additional, cursor₁, cursor₂, hat₁, hat₂, hat₃, hlen₁, hlen₂, hlen₃⟩
    have hbound₁ := hat₁.bounds
    have hbound₂ := hat₂.bounds
    have hbound₃ := hat₃.bounds
    obtain ⟨records₁, h₁, hanswers⟩ := hat₁.read hlen
    obtain ⟨records₂, h₂, -⟩ := hat₂.read hlen
    obtain ⟨records₃, h₃, -⟩ := hat₃.read hlen
    refine ⟨records₁, ?_, hanswers⟩
    rw [if_neg (by omega), ← hlen₁, ← hlen₂, ← hlen₃, h₁, Option.bind_eq_bind, Option.bind_some]
    dsimp only
    rw [h₂, Option.bind_some, h₃, Option.bind_some, if_neg (by simp)]

theorem readSections_answers (hlen : message.length ≤ 512) {cursor : Nat} {records : List ResponseRecord}
    (h : readSections message cursor = some records) :
    ∃ answers : List Answer, records.map (ResponseRecord.answer? message) = answers.map some := by
  unfold readSections at h
  split_ifs at h
  simp only [Option.bind_eq_bind, Option.bind_eq_some_iff, Prod.exists] at h
  obtain ⟨records₁, cursor₁, h₁, records₂, cursor₂, h₂, records₃, cursor₃, h₃, h⟩ := h
  split_ifs at h
  obtain rfl := Option.some.inj h
  obtain ⟨answers, -, -, hanswers⟩ := readRecords_answers hlen h₁
  exact ⟨answers, hanswers⟩

theorem format_iff (hlen : message.length ≤ 512) {question : Name} {answers : List Answer} :
    Format message question answers ↔ ResponseHeader message ∧ readBe16 message 4 = 1 ∧
      ∃ cursor records, echoedQuestion message question = some cursor ∧ readSections message cursor = some records ∧
        records.map (ResponseRecord.answer? message) = answers.map some := by
  -- the parser reads exactly the accepted format; more than 48 answers would not fit in it
  unfold Format
  refine and_congr_right fun _ => and_congr_right fun _ => ?_
  constructor
  · rintro ⟨name, cursor, hexp, hin, htype, hklass, heq, hsections⟩
    have hbounds := hexp.bounds
    obtain ⟨records, hread, hanswers⟩ := (readSections_iff hlen (by omega)).mpr hsections
    exact ⟨cursor + 4, records, echoedQuestion_iff.mpr ⟨name, cursor, rfl, hexp, hin, htype, hklass, heq⟩, hread,
      hanswers⟩
  · rintro ⟨_, records, hecho, hread, hanswers⟩
    obtain ⟨name, cursor, rfl, hexp, hin, htype, hklass, heq⟩ := echoedQuestion_iff.mp hecho
    have hbounds := hexp.bounds
    exact ⟨name, cursor, hexp, hin, htype, hklass, heq, (readSections_iff hlen (by omega)).mp ⟨records, hread, hanswers⟩⟩

theorem format_unique (hlen : message.length ≤ 512) {question : Name} {answers answers' : List Answer}
    (h : Format message question answers) (h' : Format message question answers') : answers = answers' := by
  obtain ⟨-, -, cursor, records, hecho, hread, hanswers⟩ := (format_iff hlen).mp h
  obtain ⟨-, -, cursor', records', hecho', hread', hanswers'⟩ := (format_iff hlen).mp h'
  rw [hecho] at hecho'
  obtain rfl := Option.some.inj hecho'
  rw [hread] at hread'
  obtain rfl := Option.some.inj hread'
  exact List.map_injective_iff.mpr (Option.some_injective _) (hanswers.symm.trans hanswers')

end Format

def aliasOf (answers : List Answer) (name : Name) : Option Name :=
  answers.findSome? fun answer => if namesEqual answer.owner name then answer.target? else none

def owned (answers : List Answer) (name : Name) : List Ipv4Address :=
  answers.filterMap fun answer => if namesEqual answer.owner name then answer.address? else none

/-- The names reached from `name` by aliases, and the last of them if none is visited twice or sixth. -/
def walk (answers : List Answer) : Nat → Name → List Name → Option Name × List Name
  | 0, _, visited => (none, visited)
  | turns + 1, name, visited =>
    match aliasOf answers name with
    | none => (some name, visited)
    | some target =>
      if visited.any (fun v => namesEqual v target) ∨ visited.length = 5 then (none, visited)
      else walk answers turns target (visited ++ [target])

def failedWith (status : Status) (visited : List Name) : ParsedResponse :=
  ⟨.complete, status, [], [], visited, visited.length - 1⟩

def judge (answers : List Answer) (question : Name) (visited : List Name) : ParsedResponse :=
  match walk answers 6 question visited with
  | (none, names) => failedWith .cnameLoopOrLimit names
  | (some terminal, names) =>
    let found := (owned answers terminal).eraseDups.take 8
    if found ≠ [] then { failedWith .success names with addresses := found }
    else if visited.length < names.length then
      { failedWith .pending names with disposition := .followup, followupName := terminal }
    else failedWith .notFound names

section Judge
variable {message : List UInt8} {records : List ResponseRecord} {answers : List Answer}

theorem answer?_some {record : ResponseRecord} {answer : Answer} (h : record.answer? message = some answer) :
    recordOwner message record = some answer.owner ∧ record.type = answer.type ∧ record.klass = answer.klass ∧
      (record.type = 1 → answer.data = .address (addressAt message record.rdataOffset)) ∧
      (record.type = 5 → ∃ target, cnameTarget message record = some target ∧ answer.data = .alias target) ∧
      (record.type ≠ 1 → record.type ≠ 5 → answer.data = .other) := by
  unfold ResponseRecord.answer? at h
  cases howner : recordOwner message record with
  | none =>
    rw [howner] at h
    cases h
  | some owner =>
    rw [howner] at h
    dsimp only at h
    split_ifs at h with h1 h5
    · obtain rfl := Option.some.inj h
      exact ⟨rfl, rfl, rfl, fun _ => rfl, fun h5 => by omega, fun hne => absurd h1 hne⟩
    · cases htarget : cnameTarget message record with
      | none =>
        rw [htarget] at h
        cases h
      | some target =>
        rw [htarget] at h
        obtain rfl := Option.some.inj h
        exact ⟨rfl, rfl, rfl, fun h1' => absurd h1' h1, fun _ => ⟨target, rfl, rfl⟩, fun _ hne => absurd h5 hne⟩
    · obtain rfl := Option.some.inj h
      exact ⟨rfl, rfl, rfl, fun h1' => absurd h1' h1, fun h5' => absurd h5' h5, fun _ _ => rfl⟩

theorem target?_eq {record : ResponseRecord} {answer : Answer} (h : record.answer? message = some answer) :
    answer.target? = if record.isAlias then cnameTarget message record else none := by
  obtain ⟨-, -, hklass, haddress, halias, hother⟩ := answer?_some h
  unfold Answer.target? ResponseRecord.isAlias
  by_cases h1 : record.type = 1
  · rw [haddress h1, h1]
    rfl
  · by_cases h5 : record.type = 5
    · obtain ⟨target, htarget, hdata⟩ := halias h5
      rw [hdata, h5, ← hklass, htarget]
      simp
    · rw [hother h1 h5]
      simp [h5]

theorem address?_eq {record : ResponseRecord} {answer : Answer} (h : record.answer? message = some answer) :
    answer.address? = if record.isAddress then some (addressAt message record.rdataOffset) else none := by
  obtain ⟨-, -, hklass, haddress, halias, hother⟩ := answer?_some h
  unfold Answer.address? ResponseRecord.isAddress
  by_cases h1 : record.type = 1
  · rw [haddress h1, h1, ← hklass]
    simp
  · by_cases h5 : record.type = 5
    · obtain ⟨target, htarget, hdata⟩ := halias h5
      rw [hdata]
      simp [h1]
    · rw [hother h1 h5]
      simp [h1]

theorem alias_target {record : ResponseRecord} {answer : Answer} (h : record.answer? message = some answer)
    (halias : record.isAlias = true) : ∃ target, cnameTarget message record = some target ∧ answer.target? = some target := by
  obtain ⟨-, -, -, -, hfive, -⟩ := answer?_some h
  have htype : record.type = 5 := by
    unfold ResponseRecord.isAlias at halias
    simp only [Bool.and_eq_true, decide_eq_true_eq] at halias
    exact halias.1
  obtain ⟨target, htarget, -⟩ := hfive htype
  exact ⟨target, htarget, by rw [target?_eq h, halias, if_pos rfl, htarget]⟩

theorem findLink_eq (name : Name) : ∀ {records : List ResponseRecord} {answers : List Answer},
    records.map (ResponseRecord.answer? message) = answers.map some →
    (findLink message name records = some none ∧ aliasOf answers name = none) ∨
    ∃ link target, findLink message name records = some (some link) ∧ cnameTarget message link = some target ∧
      aliasOf answers name = some target
  | [], [], _ => .inl ⟨rfl, rfl⟩
  | [], _ :: _, h => by cases h
  | _ :: _, [], h => by cases h
  | record :: records, answer :: answers, h => by
    rw [List.map_cons, List.map_cons, List.cons.injEq] at h
    have ih := findLink_eq name h.2
    unfold findLink aliasOf
    rw [List.findSome?_cons]
    obtain ⟨howner, -⟩ := answer?_some h.1
    cases halias : record.isAlias with
    | false =>
      have htarget : answer.target? = none := by
        rw [target?_eq h.1, halias]
        rfl
      rw [htarget, ite_self]
      exact ih
    | true =>
      obtain ⟨target, hcname, htarget⟩ := alias_target h.1 halias
      rw [howner, htarget]
      dsimp only
      rw [if_neg (by decide)]
      cases heq : namesEqual answer.owner name with
      | false => exact ih
      | true => exact .inr ⟨record, target, rfl, hcname, rfl⟩

theorem length_le_walk (answers : List Answer) : ∀ turns name visited, visited.length ≤ (walk answers turns name visited).2.length := by
  intro turns
  induction turns with
  | zero => exact fun _ _ => le_rfl
  | succ turns ih =>
    intro name visited
    unfold walk
    cases aliasOf answers name with
    | none => exact le_rfl
    | some target =>
      dsimp only
      split_ifs
      · exact le_rfl
      · have := ih target (visited ++ [target])
        rw [List.length_append, List.length_singleton] at this
        omega

theorem failedWith_hop (status : Status) (visited : List Name) (target : Name) :
    { failedWith status visited with visitedNames := (failedWith status visited).visitedNames ++ [target],
                                     cnameHops := (failedWith status visited).visitedNames.length } =
      failedWith status (visited ++ [target]) := by
  simp [failedWith]

theorem followAliases_walk (hmap : records.map (ResponseRecord.answer? message) = answers.map some) :
    ∀ turns name followed visited, visited.length ≤ 5 → 6 ≤ visited.length + turns →
    (∃ names, walk answers turns name visited = (none, names) ∧
      followAliases message records turns name followed (failedWith .malformedResponse visited) =
        .inl (failedWith .cnameLoopOrLimit names)) ∨
    ∃ terminal names, walk answers turns name visited = (some terminal, names) ∧
      followAliases message records turns name followed (failedWith .malformedResponse visited) =
        .inr (terminal, followed || decide (visited.length < names.length), failedWith .malformedResponse names) := by
  -- the alias loop makes the walk; the five names give out before the turns do
  intro turns
  induction turns with
  | zero =>
    intro name followed visited hle hturns
    omega
  | succ turns ih =>
    intro name followed visited hle hturns
    unfold walk followAliases
    obtain ⟨hlink, halias⟩ | ⟨link, target, hlink, htarget, halias⟩ := findLink_eq name hmap
    · rw [hlink, halias]
      exact .inr ⟨name, visited, rfl, by simp⟩
    · rw [hlink, halias]
      dsimp only
      rw [htarget]
      dsimp only
      by_cases hmet : (visited.any fun v => namesEqual v target) = true
      · have hmet' : ((failedWith .malformedResponse visited).visitedNames.any fun v => namesEqual v target) = true := hmet
        rw [if_pos (.inl hmet), if_pos hmet']
        exact .inl ⟨visited, rfl, rfl⟩
      · have hmet' : ¬ ((failedWith .malformedResponse visited).visitedNames.any fun v => namesEqual v target) = true := hmet
        rw [if_neg hmet']
        by_cases hfull : visited.length = 5
        · have hfull' : (failedWith .malformedResponse visited).visitedNames.length = 5 := hfull
          rw [if_pos (.inr hfull), if_pos hfull']
          exact .inl ⟨visited, rfl, rfl⟩
        · have hfull' : ¬ (failedWith .malformedResponse visited).visitedNames.length = 5 := hfull
          rw [if_neg (not_or.mpr ⟨hmet, hfull⟩), if_neg hfull', failedWith_hop]
          have hnext := ih target true (visited ++ [target])
          have hgrows := length_le_walk answers turns target (visited ++ [target])
          rw [List.length_append, List.length_singleton] at hnext hgrows
          obtain ⟨names, hwalk, hfollow⟩ | ⟨terminal, names, hwalk, hfollow⟩ := hnext (by omega) (by omega)
          · exact .inl ⟨names, hwalk, hfollow⟩
          · rw [hwalk] at hgrows
            refine .inr ⟨terminal, names, hwalk, ?_⟩
            rw [hfollow, decide_eq_true (show visited.length < names.length from hgrows), Bool.or_true, Bool.true_or]

theorem collectAddresses_eq (terminal : Name) : ∀ {records : List ResponseRecord} {answers : List Answer},
    records.map (ResponseRecord.answer? message) = answers.map some → ∀ found : List Ipv4Address, found.length ≤ 8 →
    collectAddresses message terminal records found =
      (true, (found ++ ((owned answers terminal).filter (· ∉ found)).eraseDups).take 8)
  | [], [], _, found, hle => by
    rw [collectAddresses]
    simp [owned, List.take_of_length_le hle]
  | [], _ :: _, h, _, _ => by cases h
  | _ :: _, [], h, _, _ => by cases h
  | record :: records, answer :: answers, h, found, hle => by
    rw [List.map_cons, List.map_cons, List.cons.injEq] at h
    have ih := collectAddresses_eq terminal h.2
    obtain ⟨howner, -⟩ := answer?_some h.1
    have haddress := address?_eq h.1
    unfold collectAddresses
    cases hrecord : record.isAddress with
    | false =>
      rw [hrecord] at haddress
      have howned : owned (answer :: answers) terminal = owned answers terminal := by
        unfold owned
        rw [List.filterMap_cons, haddress]
        simp
      rw [howned]
      exact ih found hle
    | true =>
      rw [hrecord, if_pos rfl] at haddress
      rw [if_neg (by decide), howner]
      dsimp only
      cases hname : namesEqual answer.owner terminal with
      | false =>
        have howned : owned (answer :: answers) terminal = owned answers terminal := by
          unfold owned
          rw [List.filterMap_cons, hname]
          rfl
        rw [howned, if_neg (by simp)]
        exact ih found hle
      | true =>
        have howned : owned (answer :: answers) terminal =
            addressAt message record.rdataOffset :: owned answers terminal := by
          unfold owned
          rw [List.filterMap_cons, hname, if_pos rfl, haddress]
        rw [howned]
        show (if true = true ∧ addressAt message record.rdataOffset ∉ found ∧ found.length < 8 then
          collectAddresses message terminal records (found ++ [addressAt message record.rdataOffset])
          else collectAddresses message terminal records found) = _
        generalize addressAt message record.rdataOffset = address
        by_cases hmem : address ∈ found
        · rw [if_neg (fun hbad => hbad.2.1 hmem), ih found hle, List.filter_cons_of_neg (by simpa using hmem)]
        · rw [List.filter_cons_of_pos (by simpa using hmem)]
          by_cases hroom : found.length < 8
          · rw [if_pos ⟨rfl, hmem, hroom⟩, ih (found ++ [address]) (by rw [List.length_append, List.length_singleton]; omega),
              List.eraseDups_cons, List.filter_filter, List.append_assoc, List.singleton_append]
            have hsame : ∀ a : Ipv4Address, decide (a ∉ found ++ [address]) = (!(a == address) && decide (a ∉ found)) := by
              intro a
              by_cases ha : a = address <;> simp [ha]
            simp only [hsame]
          · rw [if_neg (fun hbad => hroom hbad.2.2), ih found hle, List.take_append_of_le_length (by omega),
              List.take_append_of_le_length (by omega)]

theorem namesEqual_refl {name : Name} (h : validWireName name = true) : namesEqual name name = true :=
  namesEqual_iff.mpr ⟨h, h, rfl⟩

theorem recordOwner_valid {record : ResponseRecord} {name : Name} (h : recordOwner message record = some name) :
    validWireName name = true := by
  obtain ⟨⟨name', next⟩, hname, rfl⟩ := Option.map_eq_some_iff.mp h
  exact (decodeName_iff.mp hname).validWireName

theorem agreesWithAlias_iff {record : ResponseRecord} {b : Answer} (h : record.answer? message = some b)
    (owner target : Name) : agreesWithAlias message owner target record = true ↔
      ¬ (namesEqual owner b.owner = true ∧
        (b.address? ≠ none ∨ ∃ target', b.target? = some target' ∧ namesEqual target target' = false)) := by
  obtain ⟨howner, -⟩ := answer?_some h
  have htarget := target?_eq h
  have haddress := address?_eq h
  unfold agreesWithAlias
  rw [howner]
  cases ha : record.isAddress with
  | true =>
    have htype : record.type = 1 := by
      unfold ResponseRecord.isAddress at ha
      simp only [Bool.and_eq_true, decide_eq_true_eq] at ha
      exact ha.1
    rw [ha, if_pos rfl] at haddress
    rw [haddress, htype]
    simp
  | false =>
    rw [ha] at haddress
    rw [haddress]
    cases hal : record.isAlias with
    | false =>
      rw [hal] at htarget
      rw [htarget]
      simp
    | true =>
      obtain ⟨target', hcname, htarget'⟩ := alias_target h hal
      have htype : record.type ≠ 1 := by
        unfold ResponseRecord.isAlias at hal
        simp only [Bool.and_eq_true, decide_eq_true_eq] at hal
        omega
      rw [hcname, htarget']
      cases hname : namesEqual owner b.owner with
      | false => simp [hname]
      | true => simp [hname, htype]

theorem forall_answers (hmap : records.map (ResponseRecord.answer? message) = answers.map some) {p : ResponseRecord → Prop}
    {q : Answer → Prop} (h : ∀ record answer, record.answer? message = some answer → (p record ↔ q answer)) :
    (∀ record ∈ records, p record) ↔ ∀ answer ∈ answers, q answer := by
  induction records generalizing answers with
  | nil =>
    obtain rfl : answers = [] := List.map_eq_nil_iff.mp hmap.symm
    simp
  | cons record records ih =>
    cases answers with
    | nil => cases hmap
    | cons answer answers =>
      rw [List.map_cons, List.map_cons, List.cons.injEq] at hmap
      rw [List.forall_mem_cons, List.forall_mem_cons, h record answer hmap.1, ih hmap.2]

theorem unambiguous_iff (hmap : records.map (ResponseRecord.answer? message) = answers.map some) :
    unambiguous message records = true ↔ ¬ Conflict answers := by
  -- the pairs of the two nested loops, where a record is not compared with itself
  have hself : ∀ {record : ResponseRecord} {owner target : Name}, record.isAlias = true →
      recordOwner message record = some owner → cnameTarget message record = some target →
      agreesWithAlias message owner target record = true := by
    intro record owner target hal howner htarget
    have hal' := hal
    unfold ResponseRecord.isAlias at hal'
    simp only [Bool.and_eq_true, decide_eq_true_eq] at hal'
    unfold agreesWithAlias
    rw [hal, howner, htarget, hal'.1]
    simp [namesEqual_refl (recordOwner_valid howner), namesEqual_refl (cnameTarget_iff.mp htarget).validWireName]
  -- the source compares the records by their places; a record agrees with itself
  have hloop : unambiguous message records = true ↔ ∀ record ∈ records, record.isAlias = true →
      ∃ owner target, recordOwner message record = some owner ∧ cnameTarget message record = some target ∧
        ∀ other ∈ records, agreesWithAlias message owner target other = true := by
    unfold unambiguous
    simp only [List.all_eq_true, Prod.forall, List.mk_mem_zipIdx_iff_getElem?]
    constructor
    · intro h record hrecord hal
      obtain ⟨i, hi⟩ := List.mem_iff_getElem?.mp hrecord
      have hi' := h record i hi
      rw [hal] at hi'
      cases howner : recordOwner message record with
      | none => simp [howner] at hi'
      | some owner =>
        cases htarget : cnameTarget message record with
        | none => simp [howner, htarget] at hi'
        | some target =>
          rw [howner, htarget] at hi'
          simp only [Bool.not_true, Bool.false_eq_true, if_false, List.all_eq_true, Prod.forall,
            List.mk_mem_zipIdx_iff_getElem?, Bool.or_eq_true, decide_eq_true_eq] at hi'
          refine ⟨owner, target, rfl, rfl, fun other hother => ?_⟩
          obtain ⟨j, hj⟩ := List.mem_iff_getElem?.mp hother
          obtain rfl | hagrees := hi' other j hj
          · rw [hi] at hj
            obtain rfl := Option.some.inj hj
            exact hself hal howner htarget
          · exact hagrees
    · intro h record i hi
      cases hal : record.isAlias with
      | false => rfl
      | true =>
        obtain ⟨owner, target, howner, htarget, hagrees⟩ := h record (List.mem_of_getElem? hi) hal
        rw [howner, htarget]
        simp only [Bool.not_true, Bool.false_eq_true, if_false, List.all_eq_true, Prod.forall,
          List.mk_mem_zipIdx_iff_getElem?, Bool.or_eq_true]
        exact fun other j hj => .inr (hagrees other (List.mem_of_getElem? hj))
  rw [hloop]
  unfold Conflict
  push Not
  refine forall_answers hmap fun record answer h => ?_
  obtain ⟨howner, -⟩ := answer?_some h
  constructor
  · intro hagrees target htarget other hother hname
    cases hal : record.isAlias with
    | false =>
      rw [target?_eq h, hal] at htarget
      cases htarget
    | true =>
      obtain ⟨owner, target', howner', hcname, hall⟩ := hagrees hal
      rw [howner] at howner'
      obtain rfl := Option.some.inj howner'
      rw [target?_eq h, hal, if_pos rfl, hcname] at htarget
      obtain rfl := Option.some.inj htarget
      have hno := (forall_answers hmap fun r a hr => agreesWithAlias_iff hr answer.owner target').mp hall other hother
      push Not at hno
      exact hno hname
  · intro hagrees hal
    obtain ⟨target, hcname, htarget⟩ := alias_target h hal
    refine ⟨answer.owner, target, howner, hcname, ?_⟩
    refine (forall_answers hmap fun r a hr => agreesWithAlias_iff hr answer.owner target).mpr fun other hother => ?_
    push Not
    exact hagrees target htarget other hother

theorem parseAnswers_eq (hmap : records.map (ResponseRecord.answer? message) = answers.map some) (question : Name)
    {visited : List Name} (hlen : visited.length ≤ 5) :
    (Conflict answers ∧ parseAnswers message question records (failedWith .malformedResponse visited) =
      failedWith .malformedResponse visited) ∨
    (¬ Conflict answers ∧ parseAnswers message question records (failedWith .malformedResponse visited) =
      judge answers question visited) := by
  have hambiguous := unambiguous_iff hmap
  unfold parseAnswers
  cases h : unambiguous message records with
  | false =>
    rw [h] at hambiguous
    have hconflict : Conflict answers := by
      by_contra hno
      exact Bool.false_ne_true (hambiguous.mpr hno)
    exact .inl ⟨hconflict, rfl⟩
  | true =>
    refine .inr ⟨hambiguous.mp h, ?_⟩
    rw [if_neg (by decide)]
    unfold judge
    obtain ⟨names, hwalk, hfollow⟩ | ⟨terminal, names, hwalk, hfollow⟩ :=
      followAliases_walk hmap 6 question false visited hlen (by omega)
    · rw [hwalk, hfollow]
    · have hcollect := collectAddresses_eq terminal hmap [] (by simp)
      simp only [List.not_mem_nil, not_false_eq_true, decide_true, List.filter_true, List.nil_append] at hcollect
      rw [hwalk, hfollow]
      dsimp only
      rw [show (failedWith .malformedResponse names).addresses = [] from rfl, hcollect]
      dsimp only
      rw [if_neg (by decide), Bool.false_or]
      by_cases hfound : (owned answers terminal).eraseDups.take 8 = []
      · have hnone : ¬ (owned answers terminal).eraseDups.take 8 ≠ [] := not_not.mpr hfound
        rw [if_neg hnone, if_neg hnone, hfound]
        simp only [decide_eq_true_eq]
        rfl
      · rw [if_pos hfound, if_pos hfound]
        rfl

end Judge

end Linux95.Net.Dns
