import Linux95.Fat32.Directories

/-! The two ways of comparing names: the reader compares the displayed text, the writer the 11
stored bytes. -/

namespace Linux95.Fat32
open Write

theorem forall_byte {P : UInt8 → Prop} (h : ∀ n : Fin 256, P (UInt8.ofFin n)) (c : UInt8) : P c :=
  h c.toFin

theorem shortNameCharacter_ne : ∀ c : UInt8, validShortNameCharacter c = true →
    c ≠ 0 ∧ c ≠ 0x2E ∧ asciiUpper c ≠ 0x20 ∧ asciiUpper c ≠ 0x2E ∧ asciiUpper c ≠ 0x05 ∧
      asciiUpper c ≠ 0xE5 ∧ asciiUpper c ≠ 0 :=
  forall_byte (by decide +kernel)

theorem asciiUpper_eq_space : ∀ c : UInt8, asciiUpper c = 0x20 ↔ c = 0x20 :=
  forall_byte (by decide +kernel)

theorem asciiUpper_eq_dot : ∀ c : UInt8, asciiUpper c = 0x2E ↔ c = 0x2E :=
  forall_byte (by decide +kernel)

theorem asciiUpper_upper : ∀ c : UInt8, asciiUpper (asciiUpper c) = asciiUpper c :=
  forall_byte (by decide +kernel)

def dotted (base extension : CString) : CString :=
  base ++ if extension = [] then [] else 0x2E :: extension

def padded (base extension : CString) (i : Nat) : UInt8 :=
  if i < 8 then base.getD i 0x20 else extension.getD (i - 8) 0x20

theorem validComponentLoop_extension : ∀ (cs : CString) (baseLength extensionLength : Nat),
    validComponentLoop cs baseLength extensionLength true = true →
      0 < baseLength ∧ 0 < extensionLength + cs.length ∧ (cs ≠ [] → extensionLength + cs.length ≤ 3) ∧
        ∀ c ∈ cs, validShortNameCharacter c = true := by
  intro cs
  induction cs with
  | nil =>
    intro baseLength extensionLength h
    unfold validComponentLoop at h
    split_ifs at h with h0 h1
    simp only [true_and] at h1
    exact ⟨by omega, by simp only [List.length_nil]; omega, fun h => absurd rfl h, by simp⟩
  | cons c cs ih =>
    intro baseLength extensionLength h
    unfold validComponentLoop at h
    split_ifs at h with h1 h2 h3 h4 h5 h6
    · simp at h3
    · simp at h5
    obtain ⟨hb, he, hle, hall⟩ := ih _ _ h
    rw [List.length_cons]
    refine ⟨hb, by omega, fun _ => ?_, ?_⟩
    · by_cases hcs : cs = []
      · subst hcs
        simp only [List.length_nil]
        omega
      · have := hle hcs
        omega
    · rw [List.forall_mem_cons]
      exact ⟨by simpa using h4, hall⟩

theorem validComponentLoop_base : ∀ (cs : CString) (baseLength : Nat),
    validComponentLoop cs baseLength 0 false = true → ∃ base extension,
      cs = dotted base extension ∧ 0 < baseLength + base.length ∧
      (base ≠ [] → baseLength + base.length ≤ 8) ∧ extension.length ≤ 3 ∧
      (∀ c ∈ base, validShortNameCharacter c = true) ∧
      ∀ c ∈ extension, validShortNameCharacter c = true := by
  intro cs
  induction cs with
  | nil =>
    intro baseLength h
    unfold validComponentLoop at h
    split_ifs at h with h0
    exact ⟨[], [], rfl, by simp only [List.length_nil]; omega, fun h => absurd rfl h, by simp, by simp,
      by simp⟩
  | cons c cs ih =>
    intro baseLength h
    unfold validComponentLoop at h
    split_ifs at h with h1 h2 h3 h4 h5 h6
    · -- the dot: what follows is the extension
      obtain ⟨hb, he, hle, hall⟩ := validComponentLoop_extension _ _ _ h
      have hne : cs ≠ [] := by
        rintro rfl
        simp at he
      refine ⟨[], cs, ?_, by simp only [List.length_nil]; omega, fun h => absurd rfl h, ?_, by simp, hall⟩
      · rw [dotted, if_neg hne, List.nil_append, h2]
      · have := hle hne
        omega
    · obtain ⟨base, extension, rfl, hpos, hle, hext, hbase, hall⟩ := ih _ h
      refine ⟨c :: base, extension, rfl, by rw [List.length_cons]; omega, fun _ => ?_, hext, ?_, hall⟩
      · rw [List.length_cons]
        by_cases hb : base = []
        · subst hb
          simp only [List.length_nil]
          omega
        · have := hle hb
          omega
      · rw [List.forall_mem_cons]
        exact ⟨by simpa using h4, hbase⟩
    · simp at h5

theorem encodeLoop_part : ∀ (part rest : CString) (position : Nat) (out : ShortName),
    (∀ c ∈ part, c ≠ 0x2E) → ∃ out', encodeLoop (part ++ rest) position out =
      encodeLoop rest (position + part.length) out' ∧
      ∀ i < 11, out'.byte i = if position ≤ i ∧ i < position + part.length then
        asciiUpper (part.getD (i - position) 0x20) else out.byte i := by
  intro part
  induction part with
  | nil =>
    intro rest position out _
    refine ⟨out, rfl, fun i _ => ?_⟩
    rw [if_neg (by simp only [List.length_nil]; omega)]
  | cons c part ih =>
    intro rest position out hdots
    obtain ⟨hc, hpart⟩ := List.forall_mem_cons.1 hdots
    rw [List.cons_append, encodeLoop, if_neg hc]
    obtain ⟨out', heq, hbyte⟩ := ih rest (position + 1)
      (fun j => if j.val = position then asciiUpper c else out j) hpart
    refine ⟨out', by rw [heq, List.length_cons, Nat.add_right_comm, Nat.add_assoc], fun i hi => ?_⟩
    rw [hbyte i hi, List.length_cons]
    by_cases hip : i = position
    · subst hip
      rw [if_neg (by omega), if_pos (by omega), Nat.sub_self]
      simp [ShortName.byte, hi]
    · by_cases hin : position + 1 ≤ i ∧ i < position + 1 + part.length
      · rw [if_pos hin, if_pos (by omega), show i - position = i - (position + 1) + 1 by omega,
          List.getD_cons_succ]
      · rw [if_neg hin, if_neg (by omega)]
        simp [ShortName.byte, hi, hip]

theorem encodeShortName_some {text : CString} {name : ShortName}
    (h : encodeShortName text = some name) : ∃ base extension, text = dotted base extension ∧
      0 < base.length ∧ base.length ≤ 8 ∧ extension.length ≤ 3 ∧
      (∀ c ∈ base, validShortNameCharacter c = true) ∧
      (∀ c ∈ extension, validShortNameCharacter c = true) ∧
      ∀ i < 11, name.byte i = padded (base.map asciiUpper) (extension.map asciiUpper) i := by
  unfold encodeShortName at h
  split_ifs at h with hvalid
  rw [Option.some.injEq] at h
  unfold validPathComponent at hvalid
  split_ifs at hvalid
  obtain ⟨base, extension, rfl, hpos, hle, hext, hb, he⟩ := validComponentLoop_base _ _ hvalid
  have hbase : base ≠ [] := by
    rintro rfl
    simp at hpos
  have hle := hle hbase
  refine ⟨base, extension, rfl, by omega, by omega, hext, hb, he, fun i hi => ?_⟩
  have hdots : ∀ l : CString, (∀ c ∈ l, validShortNameCharacter c = true) → ∀ c ∈ l, c ≠ 0x2E :=
    fun l hl c hc => (shortNameCharacter_ne c (hl c hc)).2.1
  have hgetD : ∀ (l : CString) j, j < l.length → (l.map asciiUpper).getD j 0x20 =
      asciiUpper (l.getD j 0x20) := by
    intro l j hj
    simp [List.getD, List.getElem?_eq_getElem hj]
  have hpast : ∀ (l : CString) j, ¬j < l.length → (l.map asciiUpper).getD j 0x20 = 0x20 := by
    intro l j hj
    simp [List.getD, List.getElem?_eq_none (Nat.not_lt.1 hj)]
  obtain ⟨out, hout, hbyte⟩ := encodeLoop_part base
    (if extension = [] then [] else 0x2E :: extension) 0 (fun _ => 0x20) (hdots base hb)
  rw [← h, dotted, hout]
  have hspace : ShortName.byte (fun _ => 0x20) i = 0x20 := by simp [ShortName.byte, hi]
  unfold padded
  by_cases hnil : extension = []
  · subst hnil
    rw [if_pos rfl, encodeLoop, hbyte i hi, hspace]
    by_cases hin : i < base.length
    · rw [if_pos (by omega), if_pos (by omega), Nat.sub_zero, hgetD base i hin]
    · rw [if_neg (by omega)]
      split_ifs
      · exact (hpast base i hin).symm
      · simp
  · rw [if_neg hnil, encodeLoop, if_pos rfl]
    obtain ⟨out', hout', hbyte'⟩ := encodeLoop_part extension [] 8 out (hdots extension he)
    rw [List.append_nil] at hout'
    rw [hout', encodeLoop, hbyte' i hi, hbyte i hi, hspace]
    by_cases h8 : i < 8
    · rw [if_neg (by omega), if_pos h8]
      by_cases hin : i < base.length
      · rw [if_pos (by omega), Nat.sub_zero, hgetD base i hin]
      · rw [if_neg (by omega)]
        exact (hpast base i hin).symm
    · rw [if_neg h8]
      by_cases hin : i < 8 + extension.length
      · rw [if_pos (by omega), hgetD extension (i - 8) (by omega)]
      · rw [if_neg (by omega), if_neg (by omega)]
        exact (hpast extension (i - 8) (by omega)).symm

/-- Spaces only fill up the base and the extension, and no byte is a dot or a zero. -/
def PlainName (raw : ShortName) : Prop :=
  (∀ i j : Fin 11, i ≤ j → (j.val < 8 ∨ 8 ≤ i.val) → raw i = 0x20 → raw j = 0x20) ∧
    ∀ i, raw i ≠ 0 ∧ raw i ≠ 0x2E

instance (raw : ShortName) : Decidable (PlainName raw) := inferInstanceAs (Decidable (_ ∧ _))

theorem padding (part : CString) (hpart : ∀ c ∈ part, validShortNameCharacter c = true) (i : Nat) :
    (part.map asciiUpper).getD i 0x20 = 0x20 ∧ part.length ≤ i ∨
      i < part.length ∧ ∃ c, validShortNameCharacter c = true ∧
        (part.map asciiUpper).getD i 0x20 = asciiUpper c := by
  by_cases hi : i < part.length
  · refine Or.inr ⟨hi, part[i], hpart _ (List.getElem_mem hi), ?_⟩
    simp [List.getD, List.getElem?_eq_getElem hi]
  · refine Or.inl ⟨?_, Nat.le_of_not_lt hi⟩
    simp [List.getD, List.getElem?_eq_none (Nat.le_of_not_lt hi)]

theorem encodeShortName_plain {text : CString} {name : ShortName} (h : encodeShortName text = some name) :
    PlainName name ∧ (∀ i, asciiUpper (name i) = name i) ∧ name 0 ≠ 0xE5 := by
  obtain ⟨base, extension, -, hpos, -, -, hb, he, hname⟩ := encodeShortName_some h
  have hbyte : ∀ i : Fin 11, name i = padded (base.map asciiUpper) (extension.map asciiUpper) i.val := by
    intro i
    rw [← hname i.val i.isLt]
    simp [ShortName.byte]
  have hcases : ∀ i : Fin 11, name i = 0x20 ∨ ∃ c, validShortNameCharacter c = true ∧ name i = asciiUpper c := by
    intro i
    rw [hbyte i]
    unfold padded
    split_ifs
    · exact (padding base hb i.val).imp And.left And.right
    · exact (padding extension he (i.val - 8)).imp And.left And.right
  refine ⟨⟨fun i j hij hpart hi => ?_, fun i => ?_⟩, fun i => ?_, ?_⟩
  · have hle : i.val ≤ j.val := hij
    rw [hbyte i] at hi
    rw [hbyte j]
    unfold padded at hi ⊢
    have hstop : ∀ part : CString, (∀ c ∈ part, validShortNameCharacter c = true) → ∀ a b, a ≤ b →
        (part.map asciiUpper).getD a 0x20 = 0x20 → (part.map asciiUpper).getD b 0x20 = 0x20 := by
      intro part hp a b hab ha
      rcases padding part hp b with hpad | ⟨hlt, -⟩
      · exact hpad.1
      · rcases padding part hp a with ⟨-, hlen⟩ | ⟨-, c, hc, hac⟩
        · omega
        · exact absurd (hac.symm.trans ha) (shortNameCharacter_ne c hc).2.2.1
    by_cases hj : j.val < 8
    · rw [if_pos hj]
      rw [if_pos (by omega)] at hi
      exact hstop base hb _ _ hle hi
    · rw [if_neg hj]
      rw [if_neg (by omega)] at hi
      exact hstop extension he _ _ (by omega) hi
  · rcases hcases i with hspace | ⟨c, hc, heq⟩
    · rw [hspace]
      decide
    · rw [heq]
      exact ⟨(shortNameCharacter_ne c hc).2.2.2.2.2.2, (shortNameCharacter_ne c hc).2.2.2.1⟩
  · rcases hcases i with hspace | ⟨c, -, heq⟩
    · rw [hspace]
      decide
    · rw [heq, asciiUpper_upper]
  · rcases hcases 0 with hspace | ⟨c, hc, heq⟩
    · rw [hspace]
      decide
    · rw [heq]
      exact (shortNameCharacter_ne c hc).2.2.2.2.2.1

def shownByte (raw : ShortName) (i : Nat) : UInt8 :=
  if i = 0 ∧ raw.byte i = 0x05 then 0xE5 else raw.byte i

theorem formatPart_spec (raw : ShortName) : ∀ n i, (formatPart raw i n).length ≤ n ∧
    (∀ j < (formatPart raw i n).length, (formatPart raw i n).getD j 0x20 = shownByte raw (i + j)) ∧
    (∀ c ∈ formatPart raw i n, c ≠ 0x20 ∧ ∃ j, i ≤ j ∧ j < i + n ∧ c = shownByte raw j) ∧
    ((formatPart raw i n).length < n → shownByte raw (i + (formatPart raw i n).length) = 0x20) := by
  intro n
  induction n with
  | zero => exact fun i => ⟨le_rfl, by simp [formatPart], by simp [formatPart], by simp [formatPart]⟩
  | succ n ih =>
    intro i
    have hcons : formatPart raw i (n + 1) =
        if shownByte raw i = 0x20 then [] else shownByte raw i :: formatPart raw (i + 1) n := rfl
    rw [hcons]
    by_cases h : shownByte raw i = 0x20
    · rw [if_pos h]
      exact ⟨Nat.zero_le _, by simp, by simp, fun _ => h⟩
    · rw [if_neg h]
      obtain ⟨hlen, hget, hmem, hend⟩ := ih (i + 1)
      refine ⟨by rw [List.length_cons]; omega, ?_, ?_, ?_⟩
      · intro j hj
        cases j with
        | zero => rfl
        | succ j =>
          rw [List.length_cons] at hj
          rw [List.getD_cons_succ, hget j (by omega), Nat.add_assoc, Nat.add_comm 1]
      · rw [List.forall_mem_cons]
        refine ⟨⟨h, i, le_rfl, by omega, rfl⟩, fun c hc => ?_⟩
        obtain ⟨hne, j, hj, hjn, hcj⟩ := hmem c hc
        exact ⟨hne, j, by omega, by omega, hcj⟩
      · intro hlt
        rw [List.length_cons] at hlt ⊢
        rw [show i + ((formatPart raw (i + 1) n).length + 1) =
          i + 1 + (formatPart raw (i + 1) n).length by omega]
        exact hend (by omega)

theorem shownByte_space {raw : ShortName} {i : Nat} (h : shownByte raw i = 0x20) :
    raw.byte i = 0x20 := by
  unfold shownByte at h
  split_ifs at h
  · exact absurd h (by decide)
  · exact h

section Plain
variable {raw : ShortName} (hplain : PlainName raw)
include hplain

theorem plain_space {i j : Nat} (hij : i ≤ j) (hj : j < 11) (hpart : j < 8 ∨ 8 ≤ i)
    (h : raw.byte i = 0x20) : raw.byte j = 0x20 := by
  have hi : i < 11 := by omega
  unfold ShortName.byte at h ⊢
  rw [dif_pos hi] at h
  rw [dif_pos hj]
  exact hplain.1 ⟨i, hi⟩ ⟨j, hj⟩ hij hpart h

theorem plain_byte {i : Nat} (hi : i < 11) : shownByte raw i ≠ 0 ∧ shownByte raw i ≠ 0x2E := by
  unfold shownByte
  split_ifs
  · exact ⟨by decide, by decide⟩
  · unfold ShortName.byte
    rw [dif_pos hi]
    exact hplain.2 ⟨i, hi⟩

theorem shownByte_padded {i : Nat} (hi : i < 11) :
    shownByte raw i = padded (formatPart raw 0 8) (formatPart raw 8 3) i := by
  obtain ⟨hlen, hget, -, hend⟩ := formatPart_spec raw 8 0
  obtain ⟨hlen', hget', -, hend'⟩ := formatPart_spec raw 3 8
  have hspace : ∀ k, raw.byte k = 0x20 → shownByte raw k = 0x20 := by
    intro k hk
    unfold shownByte
    rw [hk, if_neg (fun h => absurd h.2 (by decide))]
  unfold padded
  by_cases h8 : i < 8
  · rw [if_pos h8]
    by_cases hin : i < (formatPart raw 0 8).length
    · rw [hget i hin, Nat.zero_add]
    · have hstop := shownByte_space (hend (by omega))
      rw [Nat.zero_add] at hstop
      rw [List.getD_eq_default _ _ (by omega)]
      exact hspace i (plain_space hplain (by omega) hi (.inl h8) hstop)
  · rw [if_neg h8]
    by_cases hin : i - 8 < (formatPart raw 8 3).length
    · rw [hget' _ hin, show 8 + (i - 8) = i by omega]
    · have hstop := shownByte_space (hend' (by omega))
      rw [List.getD_eq_default _ _ (by omega)]
      exact hspace i (plain_space hplain (by omega) hi (.inr (by omega)) hstop)

theorem formatShortName_plain : formatShortName raw =
    if formatPart raw 0 8 = [] then none
    else some (dotted (formatPart raw 0 8) (formatPart raw 8 3)) := by
  have hfirst : raw.byte 8 = 0x20 ↔ formatPart raw 8 3 = [] := by
    have hcons : formatPart raw 8 3 =
        if shownByte raw 8 = 0x20 then [] else shownByte raw 8 :: formatPart raw 9 2 := rfl
    have hshown : shownByte raw 8 = raw.byte 8 := rfl
    rw [hcons, hshown]
    split_ifs with h <;> simp [h]
  unfold formatShortName dotted
  dsimp only
  by_cases h8 : raw.byte 8 = 0x20
  · have h9 := plain_space hplain (show 8 ≤ 9 by omega) (by omega) (.inr le_rfl) h8
    have h10 := plain_space hplain (show 8 ≤ 10 by omega) (by omega) (.inr le_rfl) h8
    rw [if_neg (by simp [h8, h9, h10]), hfirst.1 h8]
    simp
  · rw [if_pos (by simp [h8]), if_neg (fun h => h8 (hfirst.2 h))]
    simp

end Plain

theorem asciiIequals_iff : ∀ {a b : CString}, (∀ c ∈ a, c ≠ 0) → (∀ c ∈ b, c ≠ 0) →
    (asciiIequals a b = true ↔ a.map asciiUpper = b.map asciiUpper) := by
  intro a
  induction a with
  | nil =>
    intro b _ hb
    cases b with
    | nil => exact ⟨fun _ => rfl, fun _ => rfl⟩
    | cons c b =>
      have hc := (List.forall_mem_cons.1 hb).1
      simp [asciiIequals, hc]
  | cons x a ih =>
    intro b ha hb
    obtain ⟨hx, ha⟩ := List.forall_mem_cons.1 ha
    cases b with
    | nil => simp [asciiIequals, hx]
    | cons y b =>
      obtain ⟨hy, hb⟩ := List.forall_mem_cons.1 hb
      rw [asciiIequals, if_pos ⟨hx, hy⟩, List.map_cons, List.map_cons, List.cons.injEq]
      split_ifs with hne
      · simp [hne]
      · rw [ih ha hb]
        exact ⟨fun h => ⟨not_not.1 hne, h⟩, fun h => h.2⟩

theorem dotted_inj {base extension base' extension' : CString} (hb : ∀ c ∈ base, c ≠ 0x2E)
    (hb' : ∀ c ∈ base', c ≠ 0x2E) :
    dotted base extension = dotted base' extension' ↔ base = base' ∧ extension = extension' := by
  constructor
  · intro h
    have htake : ∀ (b e : CString), (∀ c ∈ b, c ≠ 0x2E) →
        (dotted b e).takeWhile (· ≠ 0x2E) = b := by
      intro b e hdots
      have hall : ∀ c ∈ b, decide (c ≠ 0x2E) = true := fun c hc => decide_eq_true (hdots c hc)
      rw [dotted, List.takeWhile_append_of_pos hall]
      split_ifs <;> simp
    have hbase : base = base' := by
      rw [← htake base extension hb, h, htake base' extension' hb']
    subst hbase
    refine ⟨rfl, ?_⟩
    rw [dotted, dotted, List.append_cancel_left_eq] at h
    split_ifs at h with h1 h2 h2
    · rw [h1, h2]
    · exact (List.cons.inj h).2
  · rintro ⟨rfl, rfl⟩
    rfl

theorem padded_inj {base extension base' extension' : CString} (hl : base.length ≤ 8)
    (hl' : base'.length ≤ 8) (he : extension.length ≤ 3) (he' : extension'.length ≤ 3)
    (hs : ∀ c ∈ base ++ extension, c ≠ 0x20) (hs' : ∀ c ∈ base' ++ extension', c ≠ 0x20)
    (h : ∀ i < 11, padded base extension i = padded base' extension' i) :
    base = base' ∧ extension = extension' := by
  -- a part is determined by its padded form, since it has no space of its own
  have hpart : ∀ (n : Nat) (a b : CString), a.length ≤ n → b.length ≤ n → (∀ c ∈ a, c ≠ 0x20) →
      (∀ c ∈ b, c ≠ 0x20) → (∀ i < n, a.getD i 0x20 = b.getD i 0x20) → a = b := by
    intro n a b ha hb hsa hsb hget
    have hle : ∀ (x y : CString), x.length ≤ n → (∀ c ∈ x, c ≠ 0x20) →
        (∀ i < n, x.getD i 0x20 = y.getD i 0x20) → x.length ≤ y.length := by
      intro x y hx hsx hxy
      by_contra hlt
      have hi : y.length < x.length := by omega
      have hxi := hxy y.length (by omega)
      rw [List.getD_eq_default y _ le_rfl, List.getD_eq_getElem x _ hi] at hxi
      exact hsx _ (List.getElem_mem hi) hxi
    have hlen : a.length = b.length :=
      le_antisymm (hle a b ha hsa hget) (hle b a hb hsb fun i hi => (hget i hi).symm)
    apply List.ext_getElem hlen
    intro i hi hi'
    have hgi := hget i (by omega)
    rwa [List.getD_eq_getElem a _ hi, List.getD_eq_getElem b _ hi'] at hgi
  have hsb := List.forall_mem_append.1 hs
  have hsb' := List.forall_mem_append.1 hs'
  constructor
  · refine hpart 8 _ _ hl hl' hsb.1 hsb'.1 fun i hi => ?_
    have hi' := h i (by omega)
    unfold padded at hi'
    rwa [if_pos hi, if_pos hi] at hi'
  · refine hpart 3 _ _ he he' hsb.2 hsb'.2 fun i hi => ?_
    have hi' := h (8 + i) (by omega)
    unfold padded at hi'
    rwa [if_neg (by omega), if_neg (by omega), Nat.add_sub_cancel_left] at hi'

theorem dotted_map_upper (base extension : CString) : (dotted base extension).map asciiUpper =
    dotted (base.map asciiUpper) (extension.map asciiUpper) := by
  unfold dotted
  rw [List.map_append]
  congr 1
  cases extension with
  | nil => rfl
  | cons c extension => rfl

theorem padded_map_upper (base extension : CString) (i : Nat) :
    padded (base.map asciiUpper) (extension.map asciiUpper) i = asciiUpper (padded base extension i) := by
  have hspace : asciiUpper 0x20 = 0x20 := rfl
  have hgetD : ∀ (l : CString) j, (l.map asciiUpper).getD j 0x20 = asciiUpper (l.getD j 0x20) := by
    intro l j
    rw [← hspace, List.getD_map]
    rfl
  unfold padded
  split_ifs
  · exact hgetD base i
  · exact hgetD extension (i - 8)

theorem map_asciiUpper_ne {l : CString} {v : UInt8} (h : ∀ c ∈ l, asciiUpper c ≠ v) : ∀ c ∈ l.map asciiUpper, c ≠ v := by
  intro c hc
  obtain ⟨x, hx, rfl⟩ := List.mem_map.1 hc
  exact h x hx

theorem dotted_ne_zero {base extension : CString} (hb : ∀ c ∈ base, c ≠ 0) (he : ∀ c ∈ extension, c ≠ 0) :
    ∀ c ∈ dotted base extension, c ≠ 0 := by
  intro c hc
  unfold dotted at hc
  rcases List.mem_append.1 hc with hc | hc
  · exact hb c hc
  · split_ifs at hc
    · exact nomatch hc
    · rcases List.mem_cons.1 hc with rfl | hc
      · decide
      · exact he c hc

section Agreement
variable {raw : ShortName} (hplain : PlainName raw)
include hplain

theorem formatPart_bytes {i n : Nat} (hfit : i + n ≤ 11) :
    ∀ c ∈ formatPart raw i n, c ≠ 0x20 ∧ c ≠ 0 ∧ c ≠ 0x2E := by
  intro c hc
  obtain ⟨hne, j, -, hj, rfl⟩ := (formatPart_spec raw n i).2.2.1 c hc
  exact ⟨hne, plain_byte hplain (by omega)⟩

variable {base extension : CString} (hb : ∀ c ∈ base, validShortNameCharacter c = true)
include hb

theorem stored_upper_iff (hpos : 0 < base.length) (i : Fin 11) :
    asciiUpper (raw i) = padded (base.map asciiUpper) (extension.map asciiUpper) i.val ↔
      padded ((formatPart raw 0 8).map asciiUpper) ((formatPart raw 8 3).map asciiUpper) i.val =
        padded (base.map asciiUpper) (extension.map asciiUpper) i.val := by
  -- a first byte 0x05 stands for 0xE5, and no accepted name has either
  rw [padded_map_upper (formatPart raw 0 8), ← shownByte_padded hplain i.isLt]
  unfold shownByte
  split_ifs with h5
  · obtain ⟨hi0, hi5⟩ := h5
    have hne := shortNameCharacter_ne base[0] (hb _ (List.getElem_mem hpos))
    have hraw : raw i = 0x05 := by simpa [ShortName.byte] using hi5
    rw [hraw, padded_map_upper, hi0, padded, if_pos (by decide), List.getD_eq_getElem base _ hpos]
    exact ⟨fun h => absurd h.symm hne.2.2.2.2.1, fun h => absurd h.symm hne.2.2.2.2.2.1⟩
  · simp [ShortName.byte]

variable (he : ∀ c ∈ extension, validShortNameCharacter c = true)
include he

theorem stored_parts_iff (hpos : 0 < base.length) (hle : base.length ≤ 8) (hle' : extension.length ≤ 3) :
    (∀ i : Fin 11, asciiUpper (raw i) = padded (base.map asciiUpper) (extension.map asciiUpper) i.val) ↔
      (formatPart raw 0 8).map asciiUpper = base.map asciiUpper ∧
        (formatPart raw 8 3).map asciiUpper = extension.map asciiUpper := by
  have hlen := (formatPart_spec raw 8 0).1
  have hlen' := (formatPart_spec raw 3 8).1
  rw [forall_congr' (stored_upper_iff hplain hb hpos)]
  constructor
  · intro h
    refine padded_inj (by simpa using hlen) (by simpa using hle) (by simpa using hlen') (by simpa using hle') ?_ ?_
      fun i hi => h ⟨i, hi⟩
    · rw [← List.map_append]
      refine map_asciiUpper_ne fun c hc => (asciiUpper_eq_space c).not.2 ?_
      rcases List.mem_append.1 hc with hc | hc
      · exact (formatPart_bytes hplain (by decide) c hc).1
      · exact (formatPart_bytes hplain (by decide) c hc).1
    · rw [← List.map_append]
      refine map_asciiUpper_ne fun c hc => ?_
      rcases List.mem_append.1 hc with hc | hc
      · exact (shortNameCharacter_ne c (hb c hc)).2.2.1
      · exact (shortNameCharacter_ne c (he c hc)).2.2.1
  · rintro ⟨h1, h2⟩ i
    rw [h1, h2]

theorem shown_parts_iff :
    asciiIequals (dotted (formatPart raw 0 8) (formatPart raw 8 3)) (dotted base extension) = true ↔
      (formatPart raw 0 8).map asciiUpper = base.map asciiUpper ∧
        (formatPart raw 8 3).map asciiUpper = extension.map asciiUpper := by
  have hbytes := formatPart_bytes hplain (show 0 + 8 ≤ 11 by decide)
  have hbytes' := formatPart_bytes hplain (show 8 + 3 ≤ 11 by decide)
  have hdots : ∀ c ∈ (formatPart raw 0 8).map asciiUpper, c ≠ 0x2E :=
    map_asciiUpper_ne fun c hc => (asciiUpper_eq_dot c).not.2 (hbytes c hc).2.2
  have hdots' : ∀ c ∈ base.map asciiUpper, c ≠ 0x2E :=
    map_asciiUpper_ne fun c hc => (shortNameCharacter_ne c (hb c hc)).2.2.2.1
  rw [asciiIequals_iff (dotted_ne_zero (fun c hc => (hbytes c hc).2.1) fun c hc => (hbytes' c hc).2.1)
    (dotted_ne_zero (fun c hc => (shortNameCharacter_ne c (hb c hc)).1) fun c hc => (shortNameCharacter_ne c (he c hc)).1),
    dotted_map_upper, dotted_map_upper, dotted_inj hdots hdots']

end Agreement

theorem names_agree {raw name : ShortName} {text : CString} (hplain : PlainName raw)
    (henc : encodeShortName text = some name) :
    (∃ shown, formatShortName raw = some shown ∧ asciiIequals shown text = true) ↔
      ∀ i : Fin 11, asciiUpper (raw i) = name i := by
  obtain ⟨base, extension, rfl, hpos, hle, hle', hb, he, hname⟩ := encodeShortName_some henc
  have hname' : ∀ i : Fin 11, name i = padded (base.map asciiUpper) (extension.map asciiUpper) i.val := by
    intro i
    rw [← hname i.val i.isLt]
    simp [ShortName.byte]
  have hstored := stored_parts_iff hplain hb he hpos hle hle'
  have hshown := shown_parts_iff hplain hb he
  simp only [hname']
  rw [hstored, formatShortName_plain hplain]
  by_cases hnil : formatPart raw 0 8 = []
  · rw [if_pos hnil, hnil]
    constructor
    · rintro ⟨_, h, -⟩
      exact nomatch h
    · rintro ⟨h, -⟩
      have hlength := congrArg List.length h
      rw [List.length_map, List.length_map, List.length_nil] at hlength
      omega
  · rw [if_neg hnil, ← hshown]
    exact ⟨fun ⟨_, h, hq⟩ => Option.some.inj h ▸ hq, fun h => ⟨_, rfl, h⟩⟩

end Linux95.Fat32
