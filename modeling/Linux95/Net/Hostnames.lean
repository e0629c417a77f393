import Linux95.Net.DnsNames

/-! Hostnames as texts: which ones `encode_hostname` accepts, that a query carries the name so that
`decode_name` reads it back, and that names are compared as the texts are. -/

namespace Linux95.Net.Dns

structure HostLabel (label : List UInt8) : Prop where
  pos : 0 < label.length
  le : label.length ≤ 63
  chars : ∀ c ∈ label, asciiAlnum c = true ∨ c = 0x2D
  first : label.headD 0 ≠ 0x2D
  last : label.getLastD 0 ≠ 0x2D

def joinDots : List (List UInt8) → List UInt8
  | [] => []
  | [label] => label
  | label :: label' :: labels => label ++ 0x2E :: joinDots (label' :: labels)

def wireName : List (List UInt8) → Name
  | [] => [0]
  | label :: labels => UInt8.ofNat label.length :: label ++ wireName labels

/-- The text is one or more labels with dots between them and at most one dot behind, and its name is
not too long. -/
def Hostname (labels : List (List UInt8)) (text : List UInt8) : Prop :=
  labels ≠ [] ∧ (∀ label ∈ labels, HostLabel label) ∧
    (text = joinDots labels ∨ text = joinDots labels ++ [0x2E]) ∧ (wireName labels).length ≤ 255

inductive DotText : List (List UInt8) → List UInt8 → Prop
  | nil : DotText [] []
  | last (label : List UInt8) : DotText [label] label
  | more (label : List UInt8) {labels : List (List UInt8)} {text : List UInt8} (h : DotText labels text) :
      DotText (label :: labels) (label ++ 0x2E :: text)

section Texts
variable {labels : List (List UInt8)} {text : List UInt8}

theorem dotText_join : ∀ {labels : List (List UInt8)}, labels ≠ [] →
    DotText labels (joinDots labels) ∧ DotText labels (joinDots labels ++ [0x2E])
  | [], h => absurd rfl h
  | [label], _ => ⟨.last label, .more label .nil⟩
  | label :: label' :: labels, _ => by
    obtain ⟨hplain, hdot⟩ := dotText_join (List.cons_ne_nil label' labels)
    refine ⟨.more label hplain, ?_⟩
    rw [joinDots, List.append_assoc, List.cons_append]
    exact .more label hdot

theorem dotText_iff (hne : labels ≠ []) :
    DotText labels text ↔ text = joinDots labels ∨ text = joinDots labels ++ [0x2E] := by
  constructor
  · intro h
    induction h with
    | nil => exact absurd rfl hne
    | last label => exact .inl rfl
    | @more label labels text _ ih =>
      cases labels with
      | nil =>
        rename_i h
        cases h
        exact .inr rfl
      | cons label' labels =>
        obtain rfl | rfl := ih (List.cons_ne_nil label' labels)
        · exact .inl rfl
        · refine .inr ?_
          rw [joinDots, List.append_assoc, List.cons_append]
  · rintro (rfl | rfl)
    · exact (dotText_join hne).1
    · exact (dotText_join hne).2

theorem HostLabel.ne_dot {label : List UInt8} (h : HostLabel label) : ∀ c ∈ label, c ≠ 0x2E := by
  rintro c hc rfl
  obtain hbad | hbad := h.chars _ hc
  · exact absurd hbad (by decide)
  · exact absurd hbad (by decide)

theorem append_dot_inj {a b s t : List UInt8} (ha : ∀ c ∈ a, c ≠ 0x2E) (hb : ∀ c ∈ b, c ≠ 0x2E)
    (h : a ++ 0x2E :: s = b ++ 0x2E :: t) : a = b ∧ s = t := by
  induction a generalizing b with
  | nil =>
    cases b with
    | nil => exact ⟨rfl, List.tail_eq_of_cons_eq h⟩
    | cons c b => exact absurd (List.head_eq_of_cons_eq h).symm (hb c List.mem_cons_self)
  | cons c a ih =>
    rw [List.forall_mem_cons] at ha
    cases b with
    | nil => exact absurd (List.head_eq_of_cons_eq h) ha.1
    | cons c' b =>
      rw [List.forall_mem_cons] at hb
      obtain ⟨rfl, hst⟩ := ih ha.2 hb.2 (List.tail_eq_of_cons_eq h)
      exact ⟨by rw [List.head_eq_of_cons_eq h], hst⟩

end Texts

section Encode
variable {name : Name}

structure LabelStart (label : List UInt8) : Prop where
  le : label.length ≤ 63
  chars : ∀ c ∈ label, asciiAlnum c = true ∨ c = 0x2D
  first : label.headD 0 ≠ 0x2D

theorem LabelStart.snoc {label : List UInt8} {c : UInt8} (h : LabelStart label) (hc : asciiAlnum c = true ∨ c = 0x2D)
    (hfirst : ¬ (label = [] ∧ c = 0x2D)) (hlen : label.length ≠ 63) : LabelStart (label ++ [c]) where
  le := by
    have := h.le
    rw [List.length_append, List.length_singleton]
    omega
  chars := by
    refine List.forall_mem_append.mpr ⟨h.chars, ?_⟩
    rwa [List.forall_mem_singleton]
  first := by
    cases label with
    | nil => exact fun hbad => hfirst ⟨rfl, hbad⟩
    | cons a label => exact h.first

theorem LabelStart.host {label : List UInt8} (h : LabelStart label) (hne : label ≠ [])
    (hlast : label.getLastD 0 ≠ 0x2D) : HostLabel label :=
  ⟨List.length_pos_iff.mpr hne, h.le, h.chars, h.first, hlast⟩

theorem encodeFrom_sound : ∀ (cs : List UInt8) (wire : Name) (label : List UInt8), LabelStart label →
    encodeFrom cs wire label = some name → ∃ labels, (∀ l ∈ labels, HostLabel l) ∧ DotText labels (label ++ cs) ∧
      name = wire ++ wireName labels ∧ name.length ≤ 255 := by
  intro cs
  induction cs with
  | nil =>
    intro wire label hlabel h
    unfold encodeFrom at h
    dsimp only at h
    split_ifs at h with hnil hbad hbad
    · push Not at hbad
      obtain rfl := Option.some.inj h
      subst hnil
      exact ⟨[], by simp, .nil, rfl, by rw [List.length_append, List.length_singleton]; omega⟩
    · push Not at hbad
      obtain rfl := Option.some.inj h
      refine ⟨[label], ?_, ?_, ?_, by rw [List.length_append, List.length_singleton]; omega⟩
      · rw [List.forall_mem_singleton]
        exact hlabel.host hnil hbad.1
      · rw [List.append_nil]
        exact .last label
      · rw [wireName, wireName, List.append_assoc]
  | cons c cs ih =>
    intro wire label hlabel h
    unfold encodeFrom at h
    split_ifs at h with hfull hdot hbad hbad
    · push Not at hbad
      subst hdot
      obtain ⟨labels, hall, htext, hname, hle⟩ := ih _ [] ⟨by simp, by simp, by decide⟩ h
      refine ⟨label :: labels, ?_, .more label htext, ?_, hle⟩
      · exact List.forall_mem_cons.mpr ⟨hlabel.host hbad.1 hbad.2.1, hall⟩
      · rw [hname, wireName, List.append_assoc]
    · push Not at hbad
      obtain ⟨hchar, hfirst, hlen, -⟩ := hbad
      have hc : asciiAlnum c = true ∨ c = 0x2D := by
        cases ha : asciiAlnum c with
        | true => exact .inl rfl
        | false => simpa [ha] using hchar
      obtain ⟨labels, hall, htext, hrest⟩ := ih wire (label ++ [c])
        (hlabel.snoc hc (fun hbad => hfirst hbad.1 hbad.2) hlen) h
      rw [List.append_assoc, List.singleton_append] at htext
      exact ⟨labels, hall, htext, hrest⟩

theorem LabelStart.ne_dot {label : List UInt8} (h : LabelStart label) : ∀ c ∈ label, c ≠ 0x2E := by
  rintro c hc rfl
  obtain hbad | hbad := h.chars _ hc
  · exact absurd hbad (by decide)
  · exact absurd hbad (by decide)

theorem HostLabel.start {label : List UInt8} (h : HostLabel label) : LabelStart label := ⟨h.le, h.chars, h.first⟩

theorem wireName_pos (labels : List (List UInt8)) : 0 < (wireName labels).length := by
  cases labels <;> simp [wireName]

theorem dotText_first {labels : List (List UInt8)} {label rest : List UInt8} {c : UInt8} (hlabel : LabelStart label)
    (hc : c ≠ 0x2E) (h : DotText labels (label ++ c :: rest)) :
    ∃ l ls l', labels = l :: ls ∧ l = label ++ c :: l' := by
  generalize htext : label ++ c :: rest = text at h
  cases h with
  | nil => simp at htext
  | last l => exact ⟨_, [], rest, rfl, htext.symm⟩
  | @more l ls t _ =>
    refine ⟨l, ls, ?_⟩
    obtain ⟨a, rfl, ha⟩ | ⟨a, rfl, ha⟩ := List.append_eq_append_iff.mp htext
    · cases a with
      | nil => exact absurd (List.head_eq_of_cons_eq ha) hc
      | cons x a =>
        rw [List.head_eq_of_cons_eq ha]
        exact ⟨a, rfl, rfl⟩
    · cases a with
      | nil => exact absurd (List.head_eq_of_cons_eq ha).symm hc
      | cons x a =>
        have hx := hlabel.ne_dot x (by simp)
        exact absurd (List.head_eq_of_cons_eq ha).symm hx

theorem dotText_dot {labels : List (List UInt8)} {label rest : List UInt8} (hlabel : LabelStart label)
    (hall : ∀ l ∈ labels, HostLabel l) (h : DotText labels (label ++ 0x2E :: rest)) :
    ∃ ls, labels = label :: ls ∧ DotText ls rest := by
  -- behind a label without dots, a dot ends the first label
  generalize htext : label ++ 0x2E :: rest = text at h
  cases h with
  | nil => simp at htext
  | last l =>
    have hdot := (hall _ List.mem_cons_self).ne_dot 0x2E
    rw [← htext] at hdot
    exact absurd rfl (hdot (by simp))
  | @more l ls t ht =>
    obtain ⟨rfl, rfl⟩ := append_dot_inj hlabel.ne_dot (hall l List.mem_cons_self).ne_dot htext
    exact ⟨ls, rfl, ht⟩

theorem dotText_head {labels : List (List UInt8)} {text : List UInt8} (hall : ∀ l ∈ labels, HostLabel l)
    (h : DotText labels text) : text.headD 0 ≠ 0x2E := by
  have hhead : ∀ l : List UInt8, HostLabel l → ∀ t : List UInt8, (l ++ t).headD 0 ≠ 0x2E := by
    intro l hl t
    obtain ⟨c, l, rfl⟩ := List.exists_cons_of_length_pos hl.pos
    exact hl.ne_dot c List.mem_cons_self
  cases h with
  | nil => decide
  | last =>
    have := hhead text (hall text List.mem_cons_self) []
    rwa [List.append_nil] at this
  | more l _ => exact hhead l (hall l List.mem_cons_self) _

theorem encodeFrom_complete : ∀ (cs : List UInt8) (wire : Name) (label : List UInt8) (labels : List (List UInt8)),
    LabelStart label → (∀ l ∈ labels, HostLabel l) → DotText labels (label ++ cs) →
    wire.length + (wireName labels).length ≤ 255 → encodeFrom cs wire label = some (wire ++ wireName labels) := by
  intro cs
  induction cs with
  | nil =>
    intro wire label labels hlabel hall htext hlen
    rw [List.append_nil] at htext
    cases htext with
    | nil =>
      simp only [wireName, List.length_singleton] at hlen
      unfold encodeFrom
      dsimp only
      rw [if_pos rfl, if_neg, wireName]
      rintro (hbad | hbad)
      · exact absurd hbad (by decide)
      · omega
    | last =>
      have hhost := hall label List.mem_cons_self
      simp only [wireName, List.length_cons, List.length_append] at hlen
      unfold encodeFrom
      dsimp only
      rw [if_neg (List.length_pos_iff.mp hhost.pos), if_neg, wireName, wireName, List.append_assoc]
      rintro (hbad | hbad)
      · exact hhost.last hbad
      · rw [List.length_append, List.length_cons] at hbad
        omega
    | more l => exact absurd rfl (hlabel.ne_dot 0x2E (by simp))
  | cons c cs ih =>
    intro wire label labels hlabel hall htext hlen
    unfold encodeFrom
    -- a dot ends the label, any other byte goes on with it
    by_cases hdot : c = 0x2E
    · subst hdot
      obtain ⟨ls, rfl, hrest⟩ := dotText_dot hlabel hall htext
      obtain ⟨hhost, hls⟩ := List.forall_mem_cons.mp hall
      have hne := List.length_pos_iff.mp hhost.pos
      rw [if_neg (fun h => hne h.1), if_pos rfl, if_neg]
      · rw [ih _ [] ls ⟨by simp, by simp, by decide⟩ hls hrest, wireName, List.append_assoc]
        rw [wireName, List.length_append, List.length_cons] at hlen
        rw [List.length_append, List.length_cons]
        omega
      · rintro (hbad | hbad | hbad)
        · exact hne hbad
        · exact hhost.last hbad
        · exact dotText_head hls hrest hbad
    · obtain ⟨l, ls, l', rfl, rfl⟩ := dotText_first hlabel hdot htext
      have hhost := (List.forall_mem_cons.mp hall).1
      have hc := hhost.chars c (by simp)
      have hle := hhost.le
      have hpos := wireName_pos ls
      rw [wireName] at hlen
      simp only [List.length_cons, List.length_append] at hlen hle
      have hfirst : ¬ (label = [] ∧ c = 0x2D) := by
        rintro ⟨rfl, rfl⟩
        exact hhost.first rfl
      rw [if_neg (by rintro ⟨-, hbad⟩; omega), if_neg hdot, if_neg]
      · refine ih wire (label ++ [c]) _ (hlabel.snoc hc hfirst (by omega)) hall ?_ ?_
        · rwa [List.append_assoc, List.singleton_append]
        · rw [wireName]
          simp only [List.length_cons, List.length_append]
          omega
      · rintro (hbad | hbad | hbad | hbad)
        · obtain ha | rfl := hc
          · simp [ha] at hbad
          · simp at hbad
        · exact hfirst hbad
        · omega
        · omega

theorem encodeHostname_iff {h : List UInt8} : encodeHostname (some h) = some name ↔
    ∃ labels, Hostname labels (h.takeWhile (· ≠ 0)) ∧ name = wireName labels := by
  have hstart : LabelStart [] := ⟨by simp, by simp, by decide⟩
  have hempty : h.takeWhile (· ≠ 0) = [] ↔ h.headD 0 = 0 := by
    cases h with
    | nil => simp
    | cons c h => simp [List.takeWhile_cons]
  unfold encodeHostname
  dsimp only
  constructor
  · intro hsome
    split_ifs at hsome with hzero
    obtain ⟨labels, hall, htext, hname, hle⟩ := encodeFrom_sound _ [] [] hstart hsome
    rw [List.nil_append] at htext hname
    have hne : labels ≠ [] := by
      rintro rfl
      generalize htaken : h.takeWhile (· ≠ 0) = text at htext
      cases htext
      exact hzero (hempty.mp htaken)
    exact ⟨labels, ⟨hne, hall, (dotText_iff hne).mp htext, hname ▸ hle⟩, hname⟩
  · rintro ⟨labels, ⟨hne, hall, htext, hle⟩, rfl⟩
    have hdots := (dotText_iff hne).mpr htext
    rw [if_neg, encodeFrom_complete _ [] [] labels hstart hall hdots (by simpa using hle), List.nil_append]
    intro hzero
    rw [hempty.mpr hzero] at hdots
    generalize htaken : ([] : List UInt8) = text at hdots
    cases hdots with
    | nil => exact hne rfl
    | last =>
      subst htaken
      exact absurd (hall [] List.mem_cons_self).pos (by simp)
    | more l => simp at htaken

end Encode

def wireLabels : Nat → Name → List (List UInt8)
  | 0, _ => []
  | _, [] => []
  | turns + 1, labelLength :: rest =>
    if labelLength = 0 then []
    else rest.take labelLength.toNat :: wireLabels turns (rest.drop labelLength.toNat)

def withoutDot (text : List UInt8) : List UInt8 := if text.getLastD 0 = 0x2E then text.dropLast else text

section Wire
variable {labels labels' : List (List UInt8)}

theorem toNat_length {label : List UInt8} (hle : label.length ≤ 63) : (UInt8.ofNat label.length).toNat = label.length := by
  rw [UInt8.toNat_ofNat', Nat.mod_eq_of_lt (by omega)]

theorem wireLabels_wireName (hall : ∀ l ∈ labels, 0 < l.length ∧ l.length ≤ 63) :
    ∀ turns, (wireName labels).length ≤ turns → wireLabels turns (wireName labels) = labels := by
  induction labels with
  | nil =>
    intro turns hle
    cases turns with
    | zero => rfl
    | succ turns => rfl
  | cons l labels ih =>
    intro turns hle
    obtain ⟨⟨hpos, hlt⟩, hall⟩ := List.forall_mem_cons.mp hall
    simp only [wireName, List.length_cons, List.length_append] at hle
    obtain ⟨turns, rfl⟩ : ∃ k, turns = k + 1 := ⟨turns - 1, by omega⟩
    have hne : UInt8.ofNat l.length ≠ 0 := by
      intro hzero
      have := congrArg UInt8.toNat hzero
      rw [toNat_length hlt] at this
      exact absurd this (by simpa using Nat.ne_of_gt hpos)
    rw [wireName, List.cons_append, wireLabels, if_neg hne, toNat_length hlt, List.take_left, List.drop_left,
      ih hall turns (by omega)]

theorem wireName_inj (hall : ∀ l ∈ labels, 0 < l.length ∧ l.length ≤ 63)
    (hall' : ∀ l ∈ labels', 0 < l.length ∧ l.length ≤ 63) : wireName labels = wireName labels' ↔ labels = labels' := by
  constructor
  · intro h
    rw [← wireLabels_wireName hall _ le_rfl, ← wireLabels_wireName hall' _ le_rfl, h]
  · rintro rfl
    rfl

theorem joinDots_inj (hne : labels ≠ []) (hne' : labels' ≠ []) (hall : ∀ l ∈ labels, ∀ c ∈ l, c ≠ 0x2E)
    (hall' : ∀ l ∈ labels', ∀ c ∈ l, c ≠ 0x2E) : joinDots labels = joinDots labels' ↔ labels = labels' := by
  refine ⟨fun h => ?_, fun h => by rw [h]⟩
  induction labels generalizing labels' with
  | nil => exact absurd rfl hne
  | cons l ls ih =>
    obtain ⟨l', ls', rfl⟩ := List.exists_cons_of_ne_nil hne'
    obtain ⟨hl, hls⟩ := List.forall_mem_cons.mp hall
    obtain ⟨hl', hls'⟩ := List.forall_mem_cons.mp hall'
    cases ls with
    | nil =>
      cases ls' with
      | nil => rw [joinDots, joinDots] at h; rw [h]
      | cons m ms =>
        rw [joinDots, joinDots] at h
        exact absurd rfl (hl 0x2E (by rw [h]; simp))
    | cons m ms =>
      cases ls' with
      | nil =>
        rw [joinDots, joinDots] at h
        exact absurd rfl (hl' 0x2E (by rw [← h]; simp))
      | cons m' ms' =>
        rw [joinDots, joinDots] at h
        obtain ⟨rfl, hrest⟩ := append_dot_inj hl hl' h
        rw [ih (List.cons_ne_nil m ms) (List.cons_ne_nil m' ms') hls hls' hrest]

theorem asciiLower_small {value : UInt8} (h : value.toNat ≤ 63) : asciiLower value = value := by
  refine if_neg fun hbad => ?_
  have := UInt8.le_iff_toNat_le.mp hbad.1
  have : (0x41 : UInt8).toNat = 65 := rfl
  omega

theorem asciiLower_dot : ∀ value : UInt8, asciiLower value = 0x2E ↔ value = 0x2E := by
  intro value
  unfold asciiLower
  split_ifs with h
  · constructor
    · intro hbad
      have h1 := UInt8.le_iff_toNat_le.mp h.1
      have h2 := UInt8.le_iff_toNat_le.mp h.2
      have h3 := congrArg UInt8.toNat hbad
      rw [UInt8.toNat_add] at h3
      have : (0x41 : UInt8).toNat = 65 := rfl
      have : (0x5A : UInt8).toNat = 90 := rfl
      have : (0x20 : UInt8).toNat = 32 := rfl
      have : (0x2E : UInt8).toNat = 46 := rfl
      omega
    · rintro rfl
      exact absurd h.1 (by decide)
  · rfl

theorem wireName_lower (hall : ∀ l ∈ labels, l.length ≤ 63) :
    (wireName labels).map asciiLower = wireName (labels.map (List.map asciiLower)) := by
  induction labels with
  | nil => rfl
  | cons l labels ih =>
    obtain ⟨hl, hall⟩ := List.forall_mem_cons.mp hall
    rw [wireName, List.map_append, List.map_cons, ih hall, List.map_cons, wireName, List.length_map,
      asciiLower_small (by rw [toNat_length hl]; exact hl)]

theorem joinDots_lower : ∀ labels : List (List UInt8),
    (joinDots labels).map asciiLower = joinDots (labels.map (List.map asciiLower))
  | [] => rfl
  | [_] => rfl
  | l :: m :: labels => by
    have ih := joinDots_lower (m :: labels)
    rw [joinDots, List.map_append, List.map_cons, ih]
    rfl

theorem expands_wireName (hall : ∀ l ∈ labels, 0 < l.length ∧ l.length ≤ 63) (tail : List UInt8) :
    ∀ head : List UInt8, Expands (head ++ (wireName labels ++ tail)) head.length [] (wireName labels)
      (head.length + (wireName labels).length) := by
  induction labels with
  | nil =>
    intro head
    refine .root (by simp [wireName]) ?_
    simp [byteAt, wireName]
  | cons l labels ih =>
    intro head
    obtain ⟨⟨hpos, hle⟩, hall⟩ := List.forall_mem_cons.mp hall
    have hbyte : byteAt (head ++ (wireName (l :: labels) ++ tail)) head.length = UInt8.ofNat l.length := by
      simp [byteAt, wireName]
    have hnat := congrArg UInt8.toNat hbyte
    rw [toNat_length hle] at hnat
    have hdrop : ((head ++ (wireName (l :: labels) ++ tail)).drop head.length).take (l.length + 1) =
        UInt8.ofNat l.length :: l := by
      rw [List.drop_left, wireName, List.cons_append, List.cons_append, List.take_succ_cons, List.append_assoc,
        List.take_left]
    have hrest := ih hall (head ++ UInt8.ofNat l.length :: l)
    have hsame : head ++ UInt8.ofNat l.length :: l ++ (wireName labels ++ tail) =
        head ++ (wireName (l :: labels) ++ tail) := by
      rw [wireName, List.append_assoc, List.append_assoc]
    rw [hsame, List.length_append, List.length_cons] at hrest
    have hlabel := @Expands.label (head ++ (wireName (l :: labels) ++ tail)) head.length
      (head.length + (wireName (l :: labels)).length) [] (wireName labels)
    rw [hnat, hdrop] at hlabel
    refine hlabel hpos hle ?_ ?_
    · simp only [wireName, List.length_append, List.length_cons]
      omega
    · convert hrest using 1
      · omega
      · simp only [wireName, List.length_append, List.length_cons]
        omega

theorem joinDots_getLast (hne : labels ≠ []) (hall : ∀ l ∈ labels, HostLabel l) :
    (joinDots labels).getLastD 0 ≠ 0x2E := by
  induction labels with
  | nil => exact absurd rfl hne
  | cons l ls ih =>
    obtain ⟨hl, hls⟩ := List.forall_mem_cons.mp hall
    cases ls with
    | nil =>
      have hmem : l.getLastD 0 ∈ l := by
        rw [List.getLastD_eq_getLast?, List.getLast?_eq_getLast_of_ne_nil (List.length_pos_iff.mp hl.pos)]
        exact List.getLast_mem _
      exact hl.ne_dot _ hmem
    | cons m ms =>
      have hlast := ih (List.cons_ne_nil m ms) hls
      have hrest : joinDots (m :: ms) ≠ [] := by
        intro hnil
        obtain ⟨c, m, rfl⟩ := List.exists_cons_of_length_pos (hls m List.mem_cons_self).pos
        cases ms with
        | nil => cases hnil
        | cons _ _ => cases hnil
      rw [List.getLastD_eq_getLast?] at hlast ⊢
      rwa [joinDots, List.getLast?_append_of_ne_nil _ (List.cons_ne_nil _ _), List.getLast?_cons_of_ne_nil hrest]

theorem Hostname.withoutDot {text : List UInt8} (h : Hostname labels text) : withoutDot text = joinDots labels := by
  obtain ⟨hne, hall, rfl | rfl, -⟩ := h
  · exact if_neg (joinDots_getLast hne hall)
  · unfold Dns.withoutDot
    rw [if_pos (by simp), List.dropLast_concat]

theorem wireName_valid (hall : ∀ l ∈ labels, 0 < l.length ∧ l.length ≤ 63) (hle : (wireName labels).length ≤ 255) :
    validWireName (wireName labels) = true := by
  have hexpands := expands_wireName hall [] []
  exact Expansion.validWireName ⟨[], hexpands, by simp, List.nodup_nil, hle⟩

theorem namesEqual_wireName {text text' : List UInt8} (h : Hostname labels text) (h' : Hostname labels' text') :
    namesEqual (wireName labels) (wireName labels') = true ↔
      (Dns.withoutDot text).map asciiLower = (Dns.withoutDot text').map asciiLower := by
  have hsize : ∀ {labels : List (List UInt8)}, (∀ l ∈ labels, HostLabel l) → ∀ l ∈ labels, 0 < l.length ∧ l.length ≤ 63 :=
    fun hall l hl => ⟨(hall l hl).pos, (hall l hl).le⟩
  have hlower : ∀ {labels : List (List UInt8)}, (∀ l ∈ labels, HostLabel l) →
      (∀ l ∈ labels.map (List.map asciiLower), 0 < l.length ∧ l.length ≤ 63) ∧
      ∀ l ∈ labels.map (List.map asciiLower), ∀ c ∈ l, c ≠ 0x2E := by
    intro labels hall
    simp only [List.forall_mem_map, List.length_map, ne_eq, asciiLower_dot]
    exact ⟨hsize hall, fun l hl => (hall l hl).ne_dot⟩
  have hne := (List.map_eq_nil_iff (f := List.map asciiLower)).not.mpr h.1
  have hne' := (List.map_eq_nil_iff (f := List.map asciiLower)).not.mpr h'.1
  rw [h.withoutDot, h'.withoutDot, joinDots_lower, joinDots_lower,
    joinDots_inj hne hne' (hlower h.2.1).2 (hlower h'.2.1).2, namesEqual_iff,
    wireName_lower fun l hl => (hsize h.2.1 l hl).2, wireName_lower fun l hl => (hsize h'.2.1 l hl).2,
    wireName_inj (hlower h.2.1).1 (hlower h'.2.1).1]
  exact ⟨fun hall => hall.2.2, fun heq => ⟨wireName_valid (hsize h.2.1) h.2.2.2,
    wireName_valid (hsize h'.2.1) h'.2.2.2, heq⟩⟩

theorem buildQuery_decode (hall : ∀ l ∈ labels, 0 < l.length ∧ l.length ≤ 63) (hle : (wireName labels).length ≤ 255)
    (id : Nat) {capacity : Nat} (hcapacity : (wireName labels).length + 16 ≤ capacity) :
    ∃ bytes, buildQuery id (wireName labels) capacity = some bytes ∧
      decodeName bytes 12 = some (wireName labels, bytes.length - 4) ∧
      bytes.drop (bytes.length - 4) = be16 1 ++ be16 1 := by
  have hquery : buildQuery id (wireName labels) capacity =
      some (be16 id ++ [0x01, 0, 0, 1, 0, 0, 0, 0, 0, 0] ++ (wireName labels ++ [0, 1, 0, 1])) := by
    unfold buildQuery
    rw [if_neg, List.append_assoc _ (wireName labels)]
    rw [wireName_valid hall hle]
    rintro (hbad | hbad)
    · cases hbad
    · omega
  have hend : (be16 id ++ [0x01, 0, 0, 1, 0, 0, 0, 0, 0, 0] ++ (wireName labels ++ [0, 1, 0, 1])).length - 4 =
      12 + (wireName labels).length := by
    simp only [be16, List.length_append, List.length_cons, List.length_nil]
    omega
  have hexpands := expands_wireName hall [0, 1, 0, 1] (be16 id ++ [0x01, 0, 0, 1, 0, 0, 0, 0, 0, 0])
  refine ⟨_, hquery, ?_, ?_⟩
  · rw [decodeName_iff, hend]
    exact ⟨[], hexpands, by simp, List.nodup_nil, hle⟩
  · rw [hend, ← List.append_assoc]
    refine List.drop_left' ?_
    simp only [be16, List.length_append, List.length_cons, List.length_nil]

end Wire

/-- Hostnames are accepted by their form, carried by queries, and compared ignoring case. -/
theorem hostnames_round_trip (h h' : List UInt8) :
    ((∃ name, encodeHostname (some h) = some name) ↔ ∃ labels, Hostname labels (h.takeWhile (· ≠ 0))) ∧
    ∀ name, encodeHostname (some h) = some name →
      (∀ id capacity, name.length + 16 ≤ capacity → ∃ bytes, buildQuery id name capacity = some bytes ∧
        decodeName bytes 12 = some (name, bytes.length - 4) ∧ bytes.drop (bytes.length - 4) = be16 1 ++ be16 1) ∧
      joinDots (wireLabels name.length name) = withoutDot (h.takeWhile (· ≠ 0)) ∧
      ∀ name', encodeHostname (some h') = some name' → (namesEqual name name' = true ↔
        (withoutDot (h.takeWhile (· ≠ 0))).map asciiLower = (withoutDot (h'.takeWhile (· ≠ 0))).map asciiLower) := by
  refine ⟨⟨?_, ?_⟩, fun name hname => ?_⟩
  · rintro ⟨name, hname⟩
    obtain ⟨labels, hhost, -⟩ := encodeHostname_iff.mp hname
    exact ⟨labels, hhost⟩
  · rintro ⟨labels, hhost⟩
    exact ⟨wireName labels, encodeHostname_iff.mpr ⟨labels, hhost, rfl⟩⟩
  · obtain ⟨labels, hhost, rfl⟩ := encodeHostname_iff.mp hname
    have hsize : ∀ l ∈ labels, 0 < l.length ∧ l.length ≤ 63 :=
      fun l hl => ⟨(hhost.2.1 l hl).pos, (hhost.2.1 l hl).le⟩
    refine ⟨fun id capacity => buildQuery_decode hsize hhost.2.2.2 id, ?_, fun name' hname' => ?_⟩
    · rw [wireLabels_wireName hsize _ le_rfl, hhost.withoutDot]
    · obtain ⟨labels', hhost', rfl⟩ := encodeHostname_iff.mp hname'
      exact namesEqual_wireName hhost hhost'

theorem hostnames_round_trip_small : ∃ name bytes, encodeHostname (some [0x61, 0x2E, 0x62, 0x2E]) = some name ∧
    buildQuery 7 name 64 = some bytes ∧ decodeName bytes 12 = some (name, bytes.length - 4) ∧
    joinDots (wireLabels name.length name) = [0x61, 0x2E, 0x62] := by
  have hname : encodeHostname (some [0x61, 0x2E, 0x62, 0x2E]) = some [1, 0x61, 1, 0x62, 0] := by decide
  obtain ⟨-, hall⟩ := hostnames_round_trip [0x61, 0x2E, 0x62, 0x2E] [0x41]
  obtain ⟨hquery, hjoin, -⟩ := hall _ hname
  obtain ⟨bytes, hbytes, hdecode, -⟩ := hquery 7 64 (by decide)
  exact ⟨_, bytes, hname, hbytes, hdecode, hjoin⟩

end Linux95.Net.Dns
