import Linux95.Fat32.SameObjects

/-! 8.3 names and paths as texts: which ones are accepted, that the encoder and the two decoders are
inverse to each other up to case, and that the two path tokenisers accept the same paths. -/

namespace Linux95.Fat32
open Base Storage Write

/-- A base of 1 to 8 allowed characters, and after a dot an extension of 1 to 3. -/
def ShortText (t : CString) : Prop :=
  ∃ base extension, t = dotted base extension ∧ 0 < base.length ∧ base.length ≤ 8 ∧ extension.length ≤ 3 ∧
    (∀ c ∈ base, validShortNameCharacter c = true) ∧ ∀ c ∈ extension, validShortNameCharacter c = true

section Encode

theorem shortNameCharacter_plain : ∀ c : UInt8, validShortNameCharacter c = true →
    ¬ (c = 0 ∨ c = 0x2F ∨ c = 0x5C ∨ c = 0x20 ∨ c < 0x21 ∨ c > 0x7E) ∧ c ≠ 0x2E ∧ c ≠ 0x2F :=
  forall_byte (by decide +kernel)

theorem shortNameCharacter_upper : ∀ c : UInt8, validShortNameCharacter c = true →
    validShortNameCharacter (asciiUpper c) = true :=
  forall_byte (by decide +kernel)

theorem validComponentLoop_accepts_extension : ∀ (cs : CString) (baseLength extensionLength : Nat),
    0 < baseLength → 0 < extensionLength + cs.length → extensionLength + cs.length ≤ 3 →
    (∀ c ∈ cs, validShortNameCharacter c = true) →
    validComponentLoop cs baseLength extensionLength true = true := by
  intro cs
  induction cs with
  | nil =>
    intro baseLength extensionLength hbase hpos _ _
    rw [List.length_nil] at hpos
    unfold validComponentLoop
    rw [if_neg (by omega), if_neg (fun h => by have := h.2; omega)]
  | cons c cs ih =>
    intro baseLength extensionLength hbase _ hle hall
    obtain ⟨hc, hcs⟩ := List.forall_mem_cons.mp hall
    obtain ⟨hplain, hdot, -⟩ := shortNameCharacter_plain c hc
    rw [List.length_cons] at hle
    unfold validComponentLoop
    rw [if_neg hplain, if_neg hdot, if_neg (by rw [hc]; decide), if_neg (by decide), if_neg (by omega)]
    exact ih baseLength (extensionLength + 1) hbase (by omega) (by omega) hcs

theorem validComponentLoop_accepts_base : ∀ (base rest : CString) (baseLength : Nat),
    baseLength + base.length ≤ 8 → (∀ c ∈ base, validShortNameCharacter c = true) →
    validComponentLoop (base ++ rest) baseLength 0 false =
      validComponentLoop rest (baseLength + base.length) 0 false := by
  intro base
  induction base with
  | nil => exact fun _ _ _ _ => rfl
  | cons c base ih =>
    intro rest baseLength hle hall
    obtain ⟨hc, hbase⟩ := List.forall_mem_cons.mp hall
    obtain ⟨hplain, hdot, -⟩ := shortNameCharacter_plain c hc
    rw [List.length_cons] at hle ⊢
    rw [List.cons_append, validComponentLoop, if_neg hplain, if_neg hdot, if_neg (by rw [hc]; decide),
      if_pos (by decide), if_neg (by omega), ih rest (baseLength + 1) (by omega) hbase,
      Nat.add_right_comm, Nat.add_assoc]

theorem validPathComponent_shortText {t : CString} (h : ShortText t) : validPathComponent t = true := by
  obtain ⟨base, extension, rfl, hpos, hle, hext, hbase, hall⟩ := h
  obtain ⟨b, bs, rfl⟩ := List.exists_cons_of_length_pos hpos
  have hdot := (shortNameCharacter_plain b (hbase b List.mem_cons_self)).2.1
  unfold validPathComponent dotted
  rw [if_neg (by simp), if_neg (by simp [hdot]), validComponentLoop_accepts_base _ _ _ (by omega) hbase]
  by_cases hnil : extension = []
  · rw [if_pos hnil]
    unfold validComponentLoop
    rw [if_neg (by omega), if_neg (by simp)]
  · rw [if_neg hnil, validComponentLoop, if_neg (by decide), if_pos rfl, if_neg]
    · refine validComponentLoop_accepts_extension _ _ _ (by omega) ?_ (by omega) hall
      have := List.length_pos_of_ne_nil hnil
      omega
    · rintro (h | h)
      · cases h
      · omega

theorem encodeShortName_iff {t : CString} : (∃ n, encodeShortName t = some n) ↔ ShortText t := by
  constructor
  · rintro ⟨n, hn⟩
    obtain ⟨base, extension, ht, hpos, hle, hext, hb, he, -⟩ := encodeShortName_some hn
    exact ⟨base, extension, ht, hpos, hle, hext, hb, he⟩
  · intro h
    exact validPathComponent_iff.mp (validPathComponent_shortText h)

theorem ShortName.ext_byte {n n' : ShortName} (h : ∀ i < 11, n.byte i = n'.byte i) : n = n' := by
  funext i
  have hi := h i.val i.isLt
  unfold ShortName.byte at hi
  rw [dif_pos i.isLt, dif_pos i.isLt] at hi
  exact hi

end Encode

section Decode
variable {n : ShortName} {t : CString}

theorem formatPart_of_bytes : ∀ (part : CString) (m i : Nat), part.length ≤ m → (∀ c ∈ part, c ≠ 0x20) →
    (∀ j < m, shownByte n (i + j) = part.getD j 0x20) → formatPart n i m = part := by
  intro part
  induction part with
  | nil =>
    intro m i _ _ hbytes
    cases m with
    | zero => rfl
    | succ m =>
      have hspace : shownByte n i = 0x20 := hbytes 0 (by omega)
      show (if shownByte n i = 0x20 then [] else _) = _
      rw [if_pos hspace]
  | cons c part ih =>
    intro m i hle hne hbytes
    obtain ⟨hc, hpart⟩ := List.forall_mem_cons.mp hne
    rw [List.length_cons] at hle
    obtain ⟨m, rfl⟩ : ∃ k, m = k + 1 := ⟨m - 1, by omega⟩
    have hhead : shownByte n i = c := hbytes 0 (by omega)
    have hrest := ih m (i + 1) (by omega) hpart fun j hj => by
      rw [show i + 1 + j = i + (j + 1) by omega, hbytes (j + 1) (by omega), List.getD_cons_succ]
    show (if shownByte n i = 0x20 then [] else shownByte n i :: formatPart n (i + 1) m) = _
    rw [if_neg (by rw [hhead]; exact hc), hhead, hrest]

theorem shortPart_eq (h : n.byte 0 ≠ 0x05) : ∀ m i, shortPart n i m = formatPart n i m
  | 0, _ => rfl
  | m + 1, i => by
    have hbyte : (if i = 0 ∧ n.byte i = 0x05 then 0xE5 else n.byte i) = n.byte i := by
      -- the writer's decoder differs from the reader's only in a leading `0x05`
      refine if_neg ?_
      rintro ⟨rfl, h'⟩
      exact h h'
    unfold shortPart formatPart
    dsimp only
    rw [hbyte, shortPart_eq h m (i + 1)]

theorem encoded_parts (h : encodeShortName t = some n) : ∃ base extension, t.map asciiUpper = dotted base extension ∧
    base ≠ [] ∧ formatPart n 0 8 = base ∧ formatPart n 8 3 = extension ∧ n.byte 0 ≠ 0x05 ∧
    (n.byte 8 ≠ 0x20 ↔ extension ≠ []) := by
  obtain ⟨base, extension, rfl, hpos, hle, hext, hb, he, hname⟩ := encodeShortName_some h
  have hspaces : ∀ l : CString, (∀ c ∈ l, validShortNameCharacter c = true) → ∀ c ∈ l.map asciiUpper, c ≠ 0x20 := by
    intro l hl c hc
    obtain ⟨x, hx, rfl⟩ := List.mem_map.mp hc
    exact (shortNameCharacter_ne x (hl x hx)).2.2.1
  have hfirst : n.byte 0 ≠ 0x05 := by
    rw [hname 0 (by decide), padded, if_pos (by decide), List.getD_eq_getElem _ _ (by rw [List.length_map]; exact hpos),
      List.getElem_map]
    exact (shortNameCharacter_ne _ (hb _ (List.getElem_mem hpos))).2.2.2.2.1
  have hshown : ∀ i < 11, shownByte n i = padded (base.map asciiUpper) (extension.map asciiUpper) i := by
    intro i hi
    rw [← hname i hi]
    refine if_neg ?_
    rintro ⟨rfl, h'⟩
    exact hfirst h'
  refine ⟨base.map asciiUpper, extension.map asciiUpper, ?_, ?_, ?_, ?_, hfirst, ?_⟩
  · rw [dotted_map_upper]
  · intro hnil
    rw [List.map_eq_nil_iff.mp hnil] at hpos
    exact absurd hpos (by decide)
  · refine formatPart_of_bytes _ 8 0 (by rw [List.length_map]; exact hle) (hspaces base hb) fun j hj => ?_
    rw [hshown (0 + j) (by omega), Nat.zero_add, padded, if_pos hj]
  · refine formatPart_of_bytes _ 3 8 (by rw [List.length_map]; exact hext) (hspaces extension he) fun j hj => ?_
    rw [hshown (8 + j) (by omega), padded, if_neg (by omega), Nat.add_sub_cancel_left]
  · rw [hname 8 (by decide), padded, if_neg (by decide)]
    cases extension with
    | nil => simp
    | cons c extension =>
      have hc := hspaces (c :: extension) he (asciiUpper c) List.mem_cons_self
      simp [hc]

theorem formatShortName_encoded (h : encodeShortName t = some n) : formatShortName n = some (t.map asciiUpper) := by
  obtain ⟨base, extension, htext, hne, hbase, hextension, -⟩ := encoded_parts h
  rw [formatShortName_plain (encodeShortName_plain h).1, hbase, hextension, if_neg hne, htext]

theorem shortComponent_encoded (h : encodeShortName t = some n) : shortComponent n = t.map asciiUpper := by
  obtain ⟨base, extension, htext, -, hbase, hextension, hfirst, hdot⟩ := encoded_parts h
  unfold shortComponent
  rw [shortPart_eq hfirst, shortPart_eq hfirst, hbase, hextension, htext, dotted]
  by_cases hnil : extension = []
  · rw [if_pos hnil, if_neg fun h => hdot.mp h hnil]
  · rw [if_neg hnil, if_pos (hdot.mpr hnil)]

theorem encodeShortName_upper (h : encodeShortName t = some n) : encodeShortName (t.map asciiUpper) = some n := by
  obtain ⟨base, extension, htext, hpos, hle, hext, hb, he, hname⟩ := encodeShortName_some h
  have hall : ∀ l : CString, (∀ c ∈ l, validShortNameCharacter c = true) →
      ∀ c ∈ l.map asciiUpper, validShortNameCharacter c = true := by
    intro l hl c hc
    obtain ⟨x, hx, rfl⟩ := List.mem_map.mp hc
    exact shortNameCharacter_upper x (hl x hx)
  have hshort : ShortText (t.map asciiUpper) := by
    refine ⟨base.map asciiUpper, extension.map asciiUpper, ?_, ?_, ?_, ?_, hall base hb, hall extension he⟩
    · rw [htext, dotted_map_upper]
    · rwa [List.length_map]
    · rwa [List.length_map]
    · rwa [List.length_map]
  obtain ⟨n', hn'⟩ := encodeShortName_iff.mpr hshort
  rw [hn']
  congr 1
  obtain ⟨base', extension', htext', -, -, -, hb', he', hname'⟩ := encodeShortName_some hn'
  have hdots : ∀ l : CString, (∀ c ∈ l, validShortNameCharacter c = true) → ∀ c ∈ l, c ≠ 0x2E :=
    fun l hl c hc => (shortNameCharacter_ne c (hl c hc)).2.1
  have hsame : base' = base.map asciiUpper ∧ extension' = extension.map asciiUpper := by
    refine (dotted_inj (hdots base' hb') (hdots _ (hall base hb))).mp ?_
    rw [← htext', htext, dotted_map_upper]
  have hidem : ∀ l : CString, (l.map asciiUpper).map asciiUpper = l.map asciiUpper := fun l => by
    rw [List.map_map]
    exact List.map_congr_left fun c _ => asciiUpper_upper c
  refine ShortName.ext_byte fun i hi => ?_
  rw [hname' i hi, hname i hi, hsame.1, hsame.2, hidem, hidem]

theorem encodeShortName_inj {t' : CString} {n' : ShortName} (h : encodeShortName t = some n)
    (h' : encodeShortName t' = some n') : n = n' ↔ t.map asciiUpper = t'.map asciiUpper := by
  constructor
  · rintro rfl
    rw [← shortComponent_encoded h, shortComponent_encoded h']
  · intro heq
    have hupper := encodeShortName_upper h
    rw [heq, encodeShortName_upper h'] at hupper
    exact (Option.some.inj hupper).symm

end Decode

def componentEnd (path : CString) (length : Nat) : Nat → Nat → Nat
  | 0, stop => stop
  | n + 1, stop =>
    if stop < length ∧ path.getD stop 0 ≠ 0x2F then componentEnd path length n (stop + 1) else stop

/-- The validation loop of `resolve_path`, which looks at `path[0 .. length]` by index; each round moves
`start` on, so `n` rounds with `length < start + n` see the end. -/
def validateLoop (path : CString) (length : Nat) : Nat → Nat → Bool
  | 0, _ => true
  | n + 1, start =>
    if start < length then
      let stop := componentEnd path length length start
      if (encodeShortName ((path.drop start).take (stop - start))).isNone then false
      else if stop + 1 = length then false
      else validateLoop path length n (stop + 1)
    else true

def validWritePath (path : CString) : Bool :=
  let length := pathLength path
  if length = 0 ∨ length = 128 then false
  else
    let start := if path.headD 0 = 0x2F then 1 else 0
    if start = length then false else validateLoop path length (length + 1) start

def validReadPath (path : CString) : Bool := (pathBody path).headD 0 ≠ 0 && validPath (pathBody path)

def joinSlash : List CString → CString
  | [] => []
  | [w] => w
  | w :: w' :: ws => w ++ 0x2F :: joinSlash (w' :: ws)

/-- One or more accepted components, separated by single slashes, behind an optional slash. -/
def PathText (s : CString) : Prop :=
  ∃ components, components ≠ [] ∧ (∀ w ∈ components, ShortText w) ∧
    (s = joinSlash components ∨ s = 0x2F :: joinSlash components)

section Tokens

theorem splitSlash_ne_nil (s : CString) : splitSlash s ≠ [] := by
  obtain ⟨w, ws, h, -⟩ := @splitSlash_append [] (by simp) s
  rw [h]
  exact List.cons_ne_nil w ws

theorem splitSlash_slash {w : CString} (h : ∀ c ∈ w, c ≠ 0x2F) (cs : CString) :
    splitSlash (w ++ 0x2F :: cs) = w :: splitSlash cs := by
  obtain ⟨w', ws, hcs, heq⟩ := splitSlash_append h (0x2F :: cs)
  rw [splitSlash, if_pos rfl] at hcs
  rw [heq, ← (List.cons.inj hcs).1, ← (List.cons.inj hcs).2, List.append_nil]

theorem splitSlash_plain {w : CString} (h : ∀ c ∈ w, c ≠ 0x2F) : splitSlash w = [w] := by
  obtain ⟨w', ws, hcs, heq⟩ := splitSlash_append h []
  rw [splitSlash] at hcs
  rw [List.append_nil] at heq
  rw [heq, ← (List.cons.inj hcs).1, ← (List.cons.inj hcs).2, List.append_nil]

theorem splitSlash_joinSlash : ∀ {ws : List CString}, ws ≠ [] → (∀ w ∈ ws, ∀ c ∈ w, c ≠ 0x2F) →
    splitSlash (joinSlash ws) = ws
  | [], h, _ => absurd rfl h
  | [w], _, h => splitSlash_plain (h w List.mem_cons_self)
  | w :: w' :: ws, _, h => by
    rw [joinSlash, splitSlash_slash (h w List.mem_cons_self), splitSlash_joinSlash (List.cons_ne_nil w' ws)
      fun v hv => h v (List.mem_cons_of_mem w hv)]

theorem joinSlash_splitSlash (s : CString) : joinSlash (splitSlash s) = s := by
  induction s with
  | nil => rfl
  | cons c s ih =>
    have hne := splitSlash_ne_nil s
    rw [splitSlash]
    by_cases hc : c = 0x2F
    · rw [if_pos hc, hc]
      cases hs : splitSlash s with
      | nil => exact absurd hs hne
      | cons w ws =>
        rw [hs] at ih
        rw [joinSlash, ih, List.nil_append]
    · rw [if_neg hc]
      cases hs : splitSlash s with
      | nil => exact absurd hs hne
      | cons w ws =>
        rw [hs] at ih
        dsimp only
        cases ws with
        | nil =>
          rw [joinSlash] at ih ⊢
          rw [ih]
        | cons w' ws =>
          rw [joinSlash] at ih ⊢
          rw [List.cons_append, ih]

theorem shortText_slash {w : CString} (h : ShortText w) : w ≠ [] ∧ ∀ c ∈ w, c ≠ 0x2F := by
  obtain ⟨base, extension, rfl, hpos, -, -, hb, he⟩ := h
  have hslash : ∀ l : CString, (∀ c ∈ l, validShortNameCharacter c = true) → ∀ c ∈ l, c ≠ 0x2F :=
    fun l hl c hc => (shortNameCharacter_plain c (hl c hc)).2.2
  constructor
  · intro hnil
    unfold dotted at hnil
    rw [(List.append_eq_nil_iff.mp hnil).1] at hpos
    exact absurd hpos (by decide)
  · unfold dotted
    refine List.forall_mem_append.mpr ⟨hslash base hb, ?_⟩
    split_ifs
    · simp
    · exact List.forall_mem_cons.mpr ⟨by decide, hslash extension he⟩

end Tokens

section WritePath
variable {path : CString} {length : Nat}

theorem componentEnd_eq (hlength : length ≤ path.length) : ∀ n stop, stop ≤ length → length ≤ stop + n →
    componentEnd path length n stop = stop + (((path.take length).drop stop).takeWhile (· ≠ 0x2F)).length := by
  intro n
  induction n with
  | zero =>
    intro stop hle hn
    obtain rfl : stop = length := by omega
    rw [componentEnd, List.drop_of_length_le (by rw [List.length_take]; omega)]
    rfl
  | succ n ih =>
    intro stop hle hn
    rw [componentEnd]
    by_cases hlt : stop < length
    · have hin : stop < (path.take length).length := by
        rw [List.length_take]
        omega
      have hget : (path.take length)[stop] = path.getD stop 0 := by
        rw [List.getElem_take, List.getD_eq_getElem _ _ (by omega)]
      rw [List.drop_eq_getElem_cons hin, hget]
      by_cases hslash : path.getD stop 0 = 0x2F
      · rw [if_neg (fun h => h.2 hslash), List.takeWhile_cons_of_neg (by simpa using hslash)]
        rfl
      · rw [if_pos ⟨hlt, hslash⟩, ih (stop + 1) (by omega) (by omega),
          List.takeWhile_cons_of_pos (by simpa using hslash), List.length_cons]
        omega
    · obtain rfl : stop = length := by omega
      rw [if_neg (fun h => hlt h.1), List.drop_of_length_le (by rw [List.length_take]; omega)]
      rfl

theorem take_takeWhile_length {α : Type} (p : α → Bool) (l : List α) {m : Nat} :
    l.take ((l.take m).takeWhile p).length = (l.take m).takeWhile p := by
  have htake := List.prefix_iff_eq_take.mp ((List.takeWhile_prefix p).trans (List.take_prefix m l))
  exact htake.symm

theorem validateLoop_iff (hlength : length ≤ path.length) : ∀ n start, start < length → length < start + n →
    (validateLoop path length n start = true ↔
      ∀ w ∈ splitSlash ((path.take length).drop start), ∃ name, encodeShortName w = some name) := by
  intro n
  induction n with
  | zero =>
    intro start _ hn
    omega
  | succ n ih =>
    intro start hlt hn
    have hsplit : _ = (path.take length).drop start := List.takeWhile_append_dropWhile (p := (· ≠ 0x2F))
    have hslash : ∀ c ∈ ((path.take length).drop start).takeWhile (· ≠ 0x2F), c ≠ 0x2F := by
      intro c hc
      simpa using List.mem_takeWhile_imp hc
    have htotal : ((path.take length).drop start).length = length - start := by
      rw [List.length_drop, List.length_take]
      omega
    have hword : (path.drop start).take (((path.take length).drop start).takeWhile (· ≠ 0x2F)).length =
        ((path.take length).drop start).takeWhile (· ≠ 0x2F) := by
      rw [List.drop_take]
      exact take_takeWhile_length _ _
    rw [validateLoop, if_pos hlt, componentEnd_eq hlength length start (by omega) (by omega)]
    dsimp only
    rw [Nat.add_sub_cancel_left, hword]
    generalize ((path.take length).drop start).takeWhile (· ≠ 0x2F) = w at hsplit hslash
    cases hrest : ((path.take length).drop start).dropWhile (· ≠ 0x2F) with
    | nil =>
      rw [hrest, List.append_nil] at hsplit
      rw [← hsplit] at htotal ⊢
      rw [splitSlash_plain hslash, List.forall_mem_singleton]
      cases hname : encodeShortName w with
      | none => simp
      | some name =>
        rw [if_neg (by simp), if_neg (by omega)]
        cases n with
        | zero => simp [validateLoop]
        | succ n =>
          rw [validateLoop, if_neg (by omega)]
          simp
    | cons c rest =>
      have hc : c = 0x2F := by
        have hhead := List.head?_dropWhile_not (· ≠ 0x2F) ((path.take length).drop start)
        rw [hrest] at hhead
        simpa using hhead
      rw [hrest, hc] at hsplit
      have hlen := congrArg List.length hsplit
      rw [htotal, List.length_append, List.length_cons] at hlen
      have hnext : rest = (path.take length).drop (start + w.length + 1) := by
        rw [Nat.add_assoc, ← List.drop_drop, ← hsplit, List.drop_append]
        simp
      rw [← hsplit, splitSlash_slash hslash, List.forall_mem_cons]
      cases hname : encodeShortName w with
      | none => simp
      | some name =>
        rw [if_neg (by simp)]
        by_cases hend : start + w.length + 1 = length
        · obtain rfl : rest = [] := List.length_eq_zero_iff.mp (by omega)
          rw [if_pos hend]
          have hempty : encodeShortName [] = none := rfl
          simp [splitSlash, hempty]
        · rw [if_neg hend, ih (start + w.length + 1) (by omega) (by omega), ← hnext]
          simp

theorem validWritePath_iff (path : CString) : validWritePath path = true ↔
    ¬ (pathLength path = 0 ∨ pathLength path = 128) ∧ writePathBody path ≠ [] ∧
      ∀ w ∈ splitSlash (writePathBody path), ∃ name, encodeShortName w = some name := by
  have hle : pathLength path ≤ path.length :=
    ((List.takeWhile_prefix _).trans (List.take_prefix 128 path)).length_le
  have hwidth : (writePathBody path).length = pathLength path - if path.headD 0 = 0x2F then 1 else 0 := by
    rw [writePathBody, List.length_drop, List.length_take, Nat.min_eq_left hle]
  have hnil : writePathBody path ≠ [] ↔ (if path.headD 0 = 0x2F then 1 else 0) < pathLength path := by
    rw [← List.length_pos_iff, hwidth]
    omega
  unfold validWritePath
  dsimp only
  by_cases hbounds : pathLength path = 0 ∨ pathLength path = 128
  · rw [if_pos hbounds]
    simp [hbounds]
  · rw [if_neg hbounds, and_iff_right hbounds]
    by_cases hlt : (if path.headD 0 = 0x2F then 1 else 0) < pathLength path
    · rw [if_neg (Nat.ne_of_lt hlt), validateLoop_iff hle _ _ hlt (by omega), and_iff_right (hnil.mpr hlt)]
      rfl
    · have hstart : (if path.headD 0 = 0x2F then 1 else 0) = pathLength path := by
        split_ifs at hlt ⊢ <;> omega
      rw [if_pos hstart]
      simp only [Bool.false_eq_true, false_iff, not_and]
      exact fun hne => absurd (hnil.mp hne) hlt

theorem resolvePath_checked (vol : Option BpbGeometry) (path : CString) : resolvePath vol (some path) =
    if validWritePath path then do
      let g ← geometryForWrite vol
      resolveFrom g g.rootCluster (splitSlash (writePathBody path))
    else throw .invalidName := by
  have hany : ((splitSlash (writePathBody path)).any fun c => (encodeShortName c).isNone) = false ↔
      ∀ w ∈ splitSlash (writePathBody path), ∃ name, encodeShortName w = some name := by
    simp [Option.ne_none_iff_exists']
  have hvalid := validWritePath_iff path
  unfold resolvePath
  dsimp only
  by_cases hbounds : pathLength path = 0 ∨ pathLength path = 128
  · rw [if_pos hbounds, if_neg fun hok => (hvalid.mp hok).1 hbounds]
  · rw [if_neg hbounds]
    by_cases hnil : writePathBody path = []
    · rw [if_pos hnil, if_neg fun hok => (hvalid.mp hok).2.1 hnil]
    · rw [if_neg hnil]
      cases hbad : (splitSlash (writePathBody path)).any fun c => (encodeShortName c).isNone with
      | true =>
        rw [if_pos rfl, if_neg]
        intro hok
        rw [hany.mpr (hvalid.mp hok).2.2] at hbad
        cases hbad
      | false => rw [if_neg (by decide), if_pos (hvalid.mpr ⟨hbounds, hnil, hany.mp hbad⟩)]

theorem pathBody_plain (path : CString) : ∀ c ∈ pathBody path, c ≠ 0 := by
  intro c hc
  simpa using List.mem_takeWhile_imp hc

theorem validReadPath_iff (path : CString) : validReadPath path = true ↔
    pathBody path ≠ [] ∧ ∀ w ∈ splitSlash (pathBody path), ∃ name, encodeShortName w = some name := by
  unfold validReadPath
  rw [Bool.and_eq_true, validPath_iff (pathBody_plain path), decide_eq_true_iff]
  refine and_iff_right_of_imp fun h => ?_
  obtain ⟨c, cs, hcs⟩ := List.exists_cons_of_ne_nil h.1
  rw [hcs]
  exact pathBody_plain path c (by rw [hcs]; exact List.mem_cons_self)

theorem resolveEntry_checked (g : BpbGeometry) (path : CString) : resolveEntry (some g) (some path) =
    if validReadPath path then resolveComponents g g.rootCluster (splitSlash (pathBody path))
    else throw .invalidName := by
  unfold resolveEntry validReadPath
  dsimp only
  by_cases hhead : (pathBody path).headD 0 = 0
  · rw [if_pos (.inl hhead), if_neg (by rw [decide_eq_false (fun h => h hhead)]; simp)]
  · cases hvalid : validPath (pathBody path) with
    | false => rw [if_pos (.inr rfl), if_neg (by simp)]
    | true => rw [if_neg (by simpa using hhead), if_pos (by simpa using hhead)]

theorem pathBody_eq (path : CString) : pathBody path =
    if (path.takeWhile (· ≠ 0)).headD 0 = 0x2F then (path.takeWhile (· ≠ 0)).tail else path.takeWhile (· ≠ 0) := by
  unfold pathBody
  cases path with
  | nil => rfl
  | cons c path =>
    by_cases hc : c = 0
    · subst hc
      rfl
    · rw [List.takeWhile_cons_of_pos (by simpa using hc), List.headD_cons, List.headD_cons]
      by_cases hslash : c = 0x2F
      · rw [if_pos hslash, if_pos hslash, List.tail_cons, List.tail_cons]
      · rw [if_neg hslash, if_neg hslash, List.takeWhile_cons_of_pos (by simpa using hc)]

theorem pathText_iff (path : CString) : PathText (path.takeWhile (· ≠ 0)) ↔
    pathBody path ≠ [] ∧ ∀ w ∈ splitSlash (pathBody path), ∃ name, encodeShortName w = some name := by
  rw [pathBody_eq]
  generalize path.takeWhile (· ≠ 0) = s
  simp only [encodeShortName_iff]
  constructor
  · rintro ⟨ws, hne, hall, hs⟩
    have hsplit := splitSlash_joinSlash hne fun w hw => (shortText_slash (hall w hw)).2
    have hhead : joinSlash ws ≠ [] ∧ (joinSlash ws).headD 0 ≠ 0x2F := by
      obtain ⟨w, ws, rfl⟩ := List.exists_cons_of_ne_nil hne
      obtain ⟨hw, hslash⟩ := shortText_slash (hall w List.mem_cons_self)
      obtain ⟨c, w, rfl⟩ := List.exists_cons_of_ne_nil hw
      have hc := hslash c List.mem_cons_self
      cases ws with
      | nil => exact ⟨List.cons_ne_nil c w, hc⟩
      | cons w' ws => exact ⟨List.cons_ne_nil _ _, hc⟩
    have hbody : (if s.headD 0 = 0x2F then s.tail else s) = joinSlash ws := by
      obtain rfl | rfl := hs
      · exact if_neg hhead.2
      · rfl
    rw [hbody, hsplit]
    exact ⟨hhead.1, hall⟩
  · rintro ⟨hne, hall⟩
    refine ⟨_, splitSlash_ne_nil _, hall, ?_⟩
    rw [joinSlash_splitSlash]
    split_ifs with hslash
    · refine .inr ?_
      cases s with
      | nil => exact absurd hslash (by decide)
      | cons c s => rw [List.tail_cons, ← hslash, List.headD_cons]
    · exact .inl rfl

end WritePath

/-- Short names are read back as they were written, in upper case, and name the same file exactly when
they differ in case only; the writer and the reader accept the same paths. -/
theorem shortNames_read_back (t t' : CString) :
    ((∃ n, encodeShortName t = some n) ↔ ShortText t) ∧
    (∀ n, encodeShortName t = some n →
      formatShortName n = some (t.map asciiUpper) ∧ shortComponent n = t.map asciiUpper ∧
      encodeShortName (t.map asciiUpper) = some n ∧
      ∀ n', encodeShortName t' = some n' → (n = n' ↔ t.map asciiUpper = t'.map asciiUpper)) ∧
    ∀ path : CString, (path.takeWhile (· ≠ 0)).length ≤ 127 →
      (validWritePath path = true ↔ validReadPath path = true) ∧
      (validReadPath path = true ↔ PathText (path.takeWhile (· ≠ 0))) ∧
      (∀ vol, resolvePath vol (some path) =
        if validWritePath path then do
          let g ← geometryForWrite vol
          resolveFrom g g.rootCluster (splitSlash (writePathBody path))
        else throw .invalidName) ∧
      ∀ g, resolveEntry (some g) (some path) =
        if validReadPath path then resolveComponents g g.rootCluster (splitSlash (pathBody path))
        else throw .invalidName := by
  refine ⟨encodeShortName_iff, fun n hn => ?_, fun path hlen => ?_⟩
  · exact ⟨formatShortName_encoded hn, shortComponent_encoded hn, encodeShortName_upper hn,
      fun n' hn' => encodeShortName_inj hn hn'⟩
  · obtain ⟨hbody, hlength⟩ := writePathBody_eq hlen
    refine ⟨?_, ?_, fun vol => resolvePath_checked vol path, fun g => resolveEntry_checked g path⟩
    · rw [validWritePath_iff, validReadPath_iff, hbody]
      refine and_iff_right_of_imp fun h => ?_
      rintro (hzero | hlong)
      · rw [hlength, List.length_eq_zero_iff] at hzero
        rw [pathBody_eq, hzero] at h
        exact h.1 rfl
      · omega
    · rw [validReadPath_iff, pathText_iff]

theorem shortNames_read_back_small :
    (∃ n, encodeShortName [0x61, 0x2E, 0x62] = some n ∧ formatShortName n = some [0x41, 0x2E, 0x42]) ∧
    (validWritePath [0x2F, 0x61] = true ↔ validReadPath [0x2F, 0x61] = true) ∧ validReadPath [0x2F, 0x61] = true := by
  obtain ⟨-, hname, hpath⟩ := shortNames_read_back [0x61, 0x2E, 0x62] [0x41, 0x2E, 0x42]
  obtain ⟨n, hn⟩ := Option.isSome_iff_exists.mp (show (encodeShortName [0x61, 0x2E, 0x62]).isSome = true by decide)
  refine ⟨⟨n, hn, (hname n hn).1⟩, (hpath [0x2F, 0x61] (by decide)).1, by decide⟩

end Linux95.Fat32
