import Mathlib.Data.List.TakeWhile
import Linux95.Fat32.Names

/-! Reader and writer name the same objects: the lookups of `resolve_entry` and `resolve_path`
side by side. -/

namespace Linux95.Fat32
open Base Storage Write

def directorySlots (g : BpbGeometry) (d : Disk) : Nat → Nat → List DirectorySlot
  | 0, _ => []
  | n + 1, c => clusterSlots g c ++ (link g d c).join.elim [] (directorySlots g d n)

def slotUsed (d : Disk) (slot : DirectorySlot) : Bool := (entryAt d slot).byte 0 ≠ 0

def usedSlots (g : BpbGeometry) (d : Disk) (c : Nat) : List DirectorySlot :=
  (directorySlots g d g.clusterCount c).takeWhile (slotUsed d)

/-- The first cluster as stored, with the reserved bits: where both lookups descend. -/
def storedCluster (e : Entry) : Nat := le16 e.byte 20 * 2 ^ 16 + le16 e.byte 26

inductive DirReached (g : BpbGeometry) (d : Disk) : Nat → Prop
  | root : DirReached g d g.rootCluster
  | child {c : Nat} {slot : DirectorySlot} (parent : DirReached g d c)
      (used : slot ∈ usedSlots g d c) (live : liveShortEntry (entryAt d slot) = true)
      (directory : isDirectoryEntry (entryAt d slot) = true) :
      DirReached g d (storedCluster (entryAt d slot))

/-- Every live entry of every directory has a plain name; dot entries apart. -/
def PlainVolume (g : BpbGeometry) (d : Disk) : Prop :=
  ∀ c slot, DirReached g d c → slot ∈ usedSlots g d c → liveShortEntry (entryAt d slot) = true →
    (entryAt d slot).byte 0 = 0x2E ∨ PlainName (entryAt d slot).name

def findVisit (wanted : CString) (entry : DirectoryEntry) (_ : Unit) : Unit ⊕ Option DirectoryEntry :=
  if asciiIequals entry.name wanted then .inr (some entry) else .inl ()

theorem nameMatches_iff {e : Entry} {name : ShortName} :
    nameMatches e name = true ↔ ∀ i : Fin 11, asciiUpper (e.name i) = name i := by
  unfold nameMatches Entry.name
  rw [decide_eq_true_eq]

theorem liveShortEntry_iff {e : Entry} : liveShortEntry e = true ↔
    e.byte 0 ≠ 0 ∧ e.byte 0 ≠ 0xE5 ∧ e.byte 11 ≠ 0x0F ∧ e.byte 11 &&& 0x08 = 0 := by
  unfold liveShortEntry
  simp only [Bool.and_eq_true, decide_eq_true_eq, and_assoc]

def decodedEntry (e : Entry) (shown : CString) : DirectoryEntry :=
  ⟨shown, isDirectoryEntry e, storedCluster e, le32 e.byte 28⟩

theorem decode_normal_iff {e : Entry} {entry : DirectoryEntry} :
    decodeDirectoryEntry e = .normal entry ↔ liveShortEntry e = true ∧
      ¬(e.byte 0 = 0x2E ∧ (e.byte 1 = 0x20 ∨ e.byte 1 = 0x2E)) ∧
      ∃ shown, formatShortName e.name = some shown ∧ entry = decodedEntry e shown := by
  rw [liveShortEntry_iff]
  unfold decodeDirectoryEntry
  dsimp only
  by_cases h0 : e.byte 0 = 0
  · simp [h0]
  by_cases h1 : e.byte 0 = 0xE5
  · simp [h1]
  by_cases h2 : e.byte 11 = 0x0F
  · simp [h0, h1, h2]
  by_cases h3 : e.byte 11 &&& 0x08 = 0
  swap
  · simp [h0, h1, h2, h3]
  rw [if_neg h0, if_neg h1, if_neg h2, if_neg (not_not.2 h3)]
  by_cases h4 : e.byte 0 = 0x2E ∧ (e.byte 1 = 0x20 ∨ e.byte 1 = 0x2E)
  · rw [if_pos h4]
    simp [h4]
  rw [if_neg h4]
  cases hf : formatShortName e.name with
  | none => simp
  | some shown =>
    simp only [Decoded.normal.injEq, Option.some.injEq]
    constructor
    · exact fun h => ⟨⟨h0, h1, h2, h3⟩, h4, shown, rfl, h.symm⟩
    · rintro ⟨-, -, _, rfl, h⟩
      exact h.symm

theorem formatShortName_head {raw : ShortName} {shown : CString}
    (h : formatShortName raw = some shown) : ∃ rest, shown = shownByte raw 0 :: rest := by
  have hcons : formatPart raw 0 8 =
      if shownByte raw 0 = 0x20 then [] else shownByte raw 0 :: formatPart raw 1 7 := rfl
  have hbase : formatPart raw 0 8 ≠ [] → ∃ rest, formatPart raw 0 8 = shownByte raw 0 :: rest := by
    rw [hcons]
    split_ifs
    · exact fun h => absurd rfl h
    · exact fun _ => ⟨_, rfl⟩
  unfold formatShortName at h
  dsimp only at h
  split_ifs at h with h1 h2 h3
  · obtain ⟨rest, hrest⟩ := hbase fun hnil => h2 (by rw [hnil]; rfl)
    rw [hrest] at h
    exact ⟨_, (Option.some.inj h).symm⟩
  · obtain ⟨rest, hrest⟩ := hbase fun hnil => h3 (by rw [hnil]; rfl)
    rw [hrest] at h
    exact ⟨_, (Option.some.inj h).symm⟩

theorem slot_agree {e : Entry} {text : CString} {name : ShortName}
    (henc : encodeShortName text = some name)
    (hplain : liveShortEntry e = true → e.byte 0 = 0x2E ∨ PlainName e.name) :
    (liveShortEntry e = true ∧ nameMatches e name = true) ↔
      ∃ entry, decodeDirectoryEntry e = .normal entry ∧ asciiIequals entry.name text = true := by
  obtain ⟨base, extension, htext, hpos, -, -, hb, -, hname⟩ := encodeShortName_some henc
  have hfirst : ∃ c, validShortNameCharacter c = true ∧ name.byte 0 = asciiUpper c := by
    refine ⟨base[0], hb _ (List.getElem_mem hpos), ?_⟩
    rw [hname 0 (by decide), padded_map_upper, padded, if_pos (by decide),
      List.getD_eq_getElem base _ hpos]
  obtain ⟨c, hc, hnc⟩ := hfirst
  have hne := shortNameCharacter_ne c hc
  rw [nameMatches_iff]
  by_cases hdot : e.byte 0 = 0x2E
  · -- no component starts with a dot, whichever way it is compared
    constructor
    · rintro ⟨-, hm⟩
      have h0 := hm 0
      rw [show e.name 0 = 0x2E from hdot, show name 0 = name.byte 0 from rfl, hnc] at h0
      exact absurd h0.symm hne.2.2.2.1
    · rintro ⟨entry, hd, heq⟩
      obtain ⟨-, -, shown, hshown, rfl⟩ := decode_normal_iff.1 hd
      obtain ⟨rest, rfl⟩ := formatShortName_head hshown
      have hshow : shownByte e.name 0 = 0x2E := by
        unfold shownByte
        rw [show e.name.byte 0 = 0x2E from hdot]
        rfl
      obtain ⟨b, bs, rfl⟩ := List.exists_cons_of_length_pos hpos
      have hb0 := shortNameCharacter_ne b (hb b (List.mem_cons_self ..))
      rw [htext, decodedEntry, hshow, dotted, List.cons_append, asciiIequals,
        if_pos ⟨by decide, hb0.1⟩, if_pos (fun h => hb0.2.2.2.1 h.symm)] at heq
      cases heq
  · constructor
    · rintro ⟨hl, hm⟩
      obtain ⟨shown, hshown, heq⟩ := (names_agree ((hplain hl).resolve_left hdot) henc).2 hm
      exact ⟨decodedEntry e shown, decode_normal_iff.2 ⟨hl, fun h => hdot h.1, shown, hshown, rfl⟩, heq⟩
    · rintro ⟨entry, hd, heq⟩
      obtain ⟨hl, -, shown, hshown, rfl⟩ := decode_normal_iff.1 hd
      exact ⟨hl, (names_agree ((hplain hl).resolve_left hdot) henc).1 ⟨shown, hshown, heq⟩⟩

inductive SameFound (d : Disk) (l : List DirectorySlot) : Search → Option DirectoryEntry → Prop
  | found {slot : DirectorySlot} {entry : DirectoryEntry} (mem : slot ∈ l.takeWhile (slotUsed d))
      (live : liveShortEntry (entryAt d slot) = true)
      (decoded : decodeDirectoryEntry (entryAt d slot) = .normal entry) :
      SameFound d l (.found slot (entryAt d slot)) (some entry)
  | notFound (free : FreeSearch) (tail : Nat) : SameFound d l (.notFound free tail) none

theorem SameFound.mono {d : Disk} {l l' : List DirectorySlot} {r : Search}
    {x : Option DirectoryEntry} (h : SameFound d l r x)
    (hsub : ∀ slot ∈ l.takeWhile (slotUsed d), slot ∈ l'.takeWhile (slotUsed d)) :
    SameFound d l' r x := by
  cases h with
  | found mem live decoded => exact .found (hsub _ mem) live decoded
  | notFound free tail => exact .notFound free tail

section Search
variable {d : Disk} {text : CString} {name : ShortName} (henc : encodeShortName text = some name)
include henc

def PlainSlots (d : Disk) (l : List DirectorySlot) : Prop :=
  ∀ slot ∈ l.takeWhile (slotUsed d), liveShortEntry (entryAt d slot) = true →
    (entryAt d slot).byte 0 = 0x2E ∨ PlainName (entryAt d slot).name

theorem scanSlots_visitSlots (c : Nat) : ∀ l st, PlainSlots d l →
    (∃ st', scanSlots d name c l st = .inl st' ∧
      visitSlots (findVisit text) (fun _ => none) d l () = .inl () ∧ ∀ slot ∈ l, slotUsed d slot = true) ∨
    ∃ r x, scanSlots d name c l st = .inr r ∧
      visitSlots (findVisit text) (fun _ => none) d l () = .inr x ∧ SameFound d l r x := by
  intro l
  induction l with
  | nil => exact fun st _ => .inl ⟨st, rfl, rfl, by simp⟩
  | cons slot l ih =>
    intro st hplain
    by_cases h0 : (entryAt d slot).byte 0 = 0
    · have hdec : decodeDirectoryEntry (entryAt d slot) = .end := by
        unfold decodeDirectoryEntry
        rw [if_pos h0]
      refine .inr ⟨_, _, by rw [scanSlots, if_pos h0], by rw [visitSlots, hdec], .notFound _ _⟩
    have hused : slotUsed d slot = true := decide_eq_true h0
    have htake : (slot :: l).takeWhile (slotUsed d) = slot :: l.takeWhile (slotUsed d) := by
      rw [List.takeWhile_cons, if_pos hused]
    have hagree := slot_agree henc (hplain slot (by rw [htake]; exact List.mem_cons_self ..))
    by_cases hmatch : liveShortEntry (entryAt d slot) = true ∧ nameMatches (entryAt d slot) name = true
    · obtain ⟨entry, hdec, heq⟩ := hagree.1 hmatch
      refine .inr ⟨_, some entry, by rw [scanSlots, if_neg h0, if_pos hmatch], ?_,
        .found (by rw [htake]; exact List.mem_cons_self ..) hmatch.1 hdec⟩
      rw [visitSlots, hdec]
      dsimp only
      rw [findVisit, if_pos heq]
    · have hrest : visitSlots (findVisit text) (fun _ => none) d (slot :: l) () =
          visitSlots (findVisit text) (fun _ => none) d l () := by
        rw [visitSlots]
        cases hdec : decodeDirectoryEntry (entryAt d slot) with
        | «end» =>
          exfalso
          unfold decodeDirectoryEntry at hdec
          dsimp only at hdec
          split_ifs at hdec
          split at hdec <;> cases hdec
        | skip => rfl
        | normal entry =>
          dsimp only
          rw [findVisit, if_neg fun heq => hmatch (hagree.2 ⟨entry, hdec, heq⟩)]
      rw [hrest, scanSlots, if_neg h0, if_neg hmatch]
      have hplain' : PlainSlots d l := fun s hs => hplain s (by rw [htake]; exact .tail _ hs)
      rcases ih _ hplain' with ⟨st', hs, hv, hall⟩ | ⟨r, x, hs, hv, hsame⟩
      · exact .inl ⟨st', hs, hv, List.forall_mem_cons.2 ⟨hused, hall⟩⟩
      · exact .inr ⟨r, x, hs, hv, hsame.mono fun s hs => by rw [htake]; exact .tail _ hs⟩

variable {g : BpbGeometry} {n : Nat} (hg : g.Sound n) (hm : g.activeFat = 0)
include hg hm

theorem findInClusters_walkClusters : ∀ m c st, validCluster g c = true →
    PlainSlots d (directorySlots g d m c) → ∀ r x, value (findInClusters g name m c st) d = .ok r →
    value (walkClusters g (findVisit text) (fun _ => none) m c ()) d = .ok x →
    SameFound d (directorySlots g d m c) r x := by
  intro m
  induction m with
  | zero => exact fun c st _ _ r x hr => nomatch hr
  | succ m ih =>
    intro c st hc hplain r x hr hx
    rw [value_findInClusters hg] at hr
    rw [value_walkClusters hg _ _ _ hm hc] at hx
    have htake : ∀ slot ∈ (clusterSlots g c).takeWhile (slotUsed d),
        slot ∈ (directorySlots g d (m + 1) c).takeWhile (slotUsed d) := by
      intro slot hslot
      rw [directorySlots, List.takeWhile_append]
      split_ifs
      · exact List.mem_append_left _ (List.takeWhile_subset _ hslot)
      · exact hslot
    cases hl : link g d c with
    | none =>
      rw [hl] at hr
      exact nomatch hr
    | some next =>
      rw [hl, linkResult_some] at hr hx
      rcases scanSlots_visitSlots henc c (clusterSlots g c) st (fun s hs => hplain s (htake s hs)) with
        ⟨st', hs, hv, hall⟩ | ⟨r', x', hs, hv, hsame⟩
      · rw [hv] at hx
        rw [hs] at hr
        have hfull : (clusterSlots g c).takeWhile (slotUsed d) = clusterSlots g c :=
          List.takeWhile_eq_self_iff.2 hall
        cases next with
        | none =>
          obtain rfl := Except.ok.inj hr
          obtain rfl := Except.ok.inj hx
          exact .notFound _ _
        | some next =>
          have hrest : ∀ slot ∈ (directorySlots g d m next).takeWhile (slotUsed d),
              slot ∈ (directorySlots g d (m + 1) c).takeWhile (slotUsed d) := by
            intro slot hslot
            rw [directorySlots, hl, List.takeWhile_append, if_pos (by rw [hfull])]
            exact List.mem_append_right _ hslot
          exact (ih next st' (link_next_valid hl) (fun s hs => hplain s (hrest s hs)) r x hr hx).mono hrest
      · rw [hv] at hx
        rw [hs] at hr
        obtain rfl := Except.ok.inj hr
        obtain rfl := Except.ok.inj hx
        exact hsame.mono htake

end Search

section ResolveFrom
variable {g : BpbGeometry} {d : Disk} {c : Nat} {component : CString} {rest : List CString}
  {name : ShortName} (henc : encodeShortName component = some name)
include henc

theorem value_resolveFrom_found {slot : DirectorySlot} {entry : Entry}
    (h : value (findInDirectory g c name) d = .ok (.found slot entry)) :
    value (resolveFrom g c (component :: rest)) d =
      if rest = [] then .ok ⟨c, name, true, slot, entry⟩
      else if !isDirectoryEntry entry then .error .notDirectory
      else if !validCluster g (storedCluster entry) then .error .corrupt
      else value (resolveFrom g (storedCluster entry) rest) d := by
  rw [resolveFrom, henc]
  dsimp only
  rw [value_bind_ok (reads_findInDirectory _ _) h]
  dsimp only
  rw [value_ite, value_ite, value_ite]
  rfl

theorem value_resolveFrom_notFound {free : FreeSearch} {tail : Nat}
    (h : value (findInDirectory g c name) d = .ok (.notFound free tail)) :
    value (resolveFrom g c (component :: rest)) d =
      if rest = [] then .ok ⟨c, name, false, ⟨0, 0⟩, Entry.zero⟩ else .error .notFound := by
  rw [resolveFrom, henc]
  dsimp only
  rw [value_bind_ok (reads_findInDirectory _ _) h]
  dsimp only
  rw [value_ite]
  rfl

theorem value_resolveFrom_error {e : Status}
    (h : value (findInDirectory g c name) d = .error e) :
    value (resolveFrom g c (component :: rest)) d = .error e := by
  rw [resolveFrom, henc]
  exact value_bind_error (reads_findInDirectory _ _) h _

end ResolveFrom

section Resolve
variable {g : BpbGeometry} {n : Nat} (hg : g.Sound n) (hm : g.activeFat = 0) {d : Disk}
include hg

theorem findInClusters_error (name : ShortName) : ∀ m c st e,
    value (findInClusters g name m c st) d = .error e → e = .corrupt := by
  intro m
  induction m with
  | zero => exact fun c st e h => (Except.error.inj h).symm
  | succ m ih =>
    intro c st e h
    rw [value_findInClusters hg] at h
    cases hl : link g d c with
    | none =>
      rw [hl] at h
      exact (Except.error.inj h).symm
    | some next =>
      rw [hl, linkResult_some] at h
      cases hs : scanSlots d name c (clusterSlots g c) st with
      | inr r =>
        rw [hs] at h
        exact nomatch h
      | inl st' =>
        rw [hs] at h
        cases next with
        | none => exact nomatch h
        | some next => exact ih next st' e h

theorem findInDirectory_error {name : ShortName} {c : Nat} {e : Status}
    (h : value (findInDirectory g c name) d = .error e) : e = .corrupt := by
  unfold findInDirectory at h
  split_ifs at h
  · exact (Except.error.inj h).symm
  · exact findInClusters_error hg name _ _ _ e h

theorem value_findEntry (c : Nat) (wanted : CString) :
    value (findEntry g c wanted) d =
      value (walkClusters g (findVisit wanted) (fun _ => none) g.clusterCount c ()) d >>= fun found =>
        match found with
        | none => .error .notFound
        | some entry => .ok entry := by
  have hwalk := reads_walkClusters hg (findVisit wanted) (fun _ => none) g.clusterCount c ()
  have heq : findEntry g c wanted = (walkClusters g (findVisit wanted) (fun _ => none)
      g.clusterCount c () >>= fun found => match found with
        | none => throw .notFound
        | some entry => pure entry) := rfl
  rw [heq, value_bind hwalk]
  congr 1
  funext found
  cases found <;> rfl

theorem value_resolveComponents_found {c : Nat} {component : CString} {rest : List CString}
    {entry : DirectoryEntry} (hlen : component.length ≤ 12)
    (h : value (findEntry g c component) d = .ok entry) :
    value (resolveComponents g c (component :: rest)) d =
      if rest = [] then .ok entry
      else if !entry.isDirectory then .error .notDirectory
      else if !validCluster g entry.firstCluster then .error .corrupt
      else value (resolveComponents g entry.firstCluster rest) d := by
  rw [resolveComponents, if_neg (by omega), value_bind_ok (reads_findEntry hg _ _) h, value_ite,
    value_ite, value_ite]
  rfl

theorem value_resolveComponents_error {c : Nat} {component : CString} {rest : List CString}
    {e : Status} (hlen : component.length ≤ 12) (h : value (findEntry g c component) d = .error e) :
    value (resolveComponents g c (component :: rest)) d = .error e := by
  rw [resolveComponents, if_neg (by omega), value_bind_error (reads_findEntry hg _ _) h]

include hm

theorem walkClusters_error {κ ρ : Type} (visit : DirectoryEntry → κ → κ ⊕ ρ) (atEnd : κ → ρ) :
    ∀ m c k e, value (walkClusters g visit atEnd m c k) d = .error e → e = .corrupt := by
  intro m
  induction m with
  | zero => exact fun c k e h => (Except.error.inj h).symm
  | succ m ih =>
    intro c k e h
    by_cases hc : validCluster g c = true
    · rw [value_walkClusters hg _ _ _ hm hc] at h
      cases hv : visitSlots visit atEnd d (clusterSlots g c) k with
      | inr r =>
        rw [hv] at h
        exact nomatch h
      | inl k' =>
        rw [hv] at h
        dsimp only at h
        cases hl : link g d c with
        | none =>
          rw [hl] at h
          exact (Except.error.inj h).symm
        | some next =>
          rw [hl, linkResult_some] at h
          cases next with
          | none => exact nomatch h
          | some next => exact ih next k' e h
    · rw [walkClusters, if_pos (by simpa [validDataCluster_eq] using hc)] at h
      exact (Except.error.inj h).symm

theorem findInDirectory_findEntry {text : CString} {name : ShortName} {c : Nat}
    (henc : encodeShortName text = some name) (hplain : PlainSlots d (directorySlots g d g.clusterCount c))
    (hw : value (findInDirectory g c name) d ≠ .error .corrupt)
    (hr : value (findEntry g c text) d ≠ .error .corrupt) :
    (∃ slot entry, value (findInDirectory g c name) d = .ok (.found slot (entryAt d slot)) ∧
      slot ∈ usedSlots g d c ∧ liveShortEntry (entryAt d slot) = true ∧
      value (findEntry g c text) d = .ok entry ∧
      decodeDirectoryEntry (entryAt d slot) = .normal entry) ∨
    ∃ free tail, value (findInDirectory g c name) d = .ok (.notFound free tail) ∧
      value (findEntry g c text) d = .error .notFound := by
  cases hv : value (findInDirectory g c name) d with
  | error e =>
    rw [hv, findInDirectory_error hg hv] at hw
    exact absurd rfl hw
  | ok r =>
    unfold findInDirectory at hv
    split_ifs at hv with hc
    · exact nomatch hv
    have hc : validCluster g c = true := by simpa using hc
    rw [value_findEntry hg] at hr ⊢
    cases hx : value (walkClusters g (findVisit text) (fun _ => none) g.clusterCount c ()) d with
    | error e =>
      rw [hx, walkClusters_error hg hm _ _ _ _ _ e hx] at hr
      exact absurd rfl hr
    | ok x =>
      have hsame := findInClusters_walkClusters henc hg hm _ c _ hc hplain r x hv hx
      cases hsame with
      | found mem live decoded => exact .inl ⟨_, _, rfl, mem, live, rfl, decoded⟩
      | notFound free tail => exact .inr ⟨free, tail, rfl, rfl⟩

theorem resolveFrom_resolveComponents (hplain : PlainVolume g d) : ∀ components c, DirReached g d c →
    (∀ w ∈ components, ∃ name, encodeShortName w = some name ∧ w.length ≤ 12) →
    value (resolveFrom g c components) d ≠ .error .corrupt →
    value (resolveComponents g c components) d ≠ .error .corrupt →
    (∃ r entry, value (resolveFrom g c components) d = .ok r ∧ r.existing = true ∧
      value (resolveComponents g c components) d = .ok entry ∧
      decodeDirectoryEntry r.entry = .normal entry) ∨
    (∀ r, value (resolveFrom g c components) d = .ok r → r.existing = false) ∧
      ∀ entry, value (resolveComponents g c components) d ≠ .ok entry := by
  intro components
  induction components with
  | nil => exact fun c _ _ _ _ => .inr ⟨fun _ h => (nomatch h), fun _ h => (nomatch h)⟩
  | cons component rest ih =>
    intro c hreach hcomponents hw hr
    obtain ⟨⟨name, henc, hlen⟩, hrest⟩ := List.forall_mem_cons.1 hcomponents
    have hslots : PlainSlots d (directorySlots g d g.clusterCount c) :=
      fun slot hslot => hplain c slot hreach hslot
    have hw' : value (findInDirectory g c name) d ≠ .error .corrupt :=
      fun h => hw (value_resolveFrom_error henc h)
    have hr' : value (findEntry g c component) d ≠ .error .corrupt :=
      fun h => hr (value_resolveComponents_error hg hlen h)
    rcases findInDirectory_findEntry hg hm henc hslots hw' hr' with
      ⟨slot, entry, hf, hmem, hlive, hfe, hdec⟩ | ⟨free, tail, hf, hfe⟩
    · have hentry : entry.isDirectory = isDirectoryEntry (entryAt d slot) ∧
          entry.firstCluster = storedCluster (entryAt d slot) := by
        obtain ⟨-, -, shown, -, rfl⟩ := decode_normal_iff.1 hdec
        exact ⟨rfl, rfl⟩
      rw [value_resolveFrom_found henc hf] at hw ⊢
      rw [value_resolveComponents_found hg hlen hfe, hentry.1, hentry.2] at hr ⊢
      by_cases hlast : rest = []
      · rw [if_pos hlast, if_pos hlast]
        exact .inl ⟨_, _, rfl, rfl, rfl, hdec⟩
      rw [if_neg hlast] at hw hr ⊢
      rw [if_neg hlast]
      by_cases hdir : isDirectoryEntry (entryAt d slot) = true
      swap
      · have hfile : (!isDirectoryEntry (entryAt d slot)) = true := by simpa using hdir
        rw [if_pos hfile, if_pos hfile]
        exact .inr ⟨fun _ h => (nomatch h), fun _ h => (nomatch h)⟩
      have hdir' : ¬(!isDirectoryEntry (entryAt d slot)) = true := by simpa using hdir
      rw [if_neg hdir'] at hw hr ⊢
      rw [if_neg hdir']
      by_cases hv : validCluster g (storedCluster (entryAt d slot)) = true
      swap
      · rw [if_pos (by simpa using hv)] at hw
        exact absurd rfl hw
      have hv' : ¬(!validCluster g (storedCluster (entryAt d slot))) = true := by simpa using hv
      rw [if_neg hv'] at hw hr ⊢
      rw [if_neg hv']
      exact ih _ (.child hreach hmem hlive hdir) hrest hw hr
    · rw [value_resolveFrom_notFound henc hf]
      rw [value_resolveComponents_error hg hlen hfe]
      refine .inr ⟨fun r h => ?_, fun _ h => nomatch h⟩
      split_ifs at h
      rw [← Except.ok.inj h]

end Resolve

theorem splitSlash_append {component : CString} (h : ∀ c ∈ component, c ≠ 0x2F) (cs : CString) :
    ∃ w ws, splitSlash cs = w :: ws ∧ splitSlash (component ++ cs) = (component ++ w) :: ws := by
  induction component with
  | nil =>
    cases cs with
    | nil => exact ⟨[], [], rfl, rfl⟩
    | cons c cs =>
      rw [List.nil_append]
      unfold splitSlash
      split_ifs
      · exact ⟨[], _, rfl, rfl⟩
      · cases splitSlash cs with
        | nil => exact ⟨[c], [], rfl, rfl⟩
        | cons w ws => exact ⟨c :: w, ws, rfl, rfl⟩
  | cons c component ih =>
    obtain ⟨hc, hcomponent⟩ := List.forall_mem_cons.1 h
    obtain ⟨w, ws, hcs, heq⟩ := ih hcomponent
    refine ⟨w, ws, hcs, ?_⟩
    rw [List.cons_append, splitSlash, if_neg hc, heq]
    rfl

theorem encodeShortName_length {w : CString} {name : ShortName}
    (h : encodeShortName w = some name) : w.length ≤ 12 := by
  obtain ⟨base, extension, rfl, -, hb, he, -⟩ := encodeShortName_some h
  unfold dotted
  rw [List.length_append]
  split_ifs
  · simp only [List.length_nil]
    omega
  · rw [List.length_cons]
    omega

theorem validPathComponent_iff {w : CString} :
    validPathComponent w = true ↔ ∃ name, encodeShortName w = some name := by
  unfold encodeShortName
  split_ifs with h <;> simp [h]

theorem validPathLoop_iff : ∀ (cs component : CString), (∀ c ∈ cs, c ≠ 0) →
    (∀ c ∈ component, c ≠ 0x2F) → component.length ≤ 12 →
    (validPathLoop component cs = true ↔
      ∀ w ∈ splitSlash (component ++ cs), validPathComponent w = true) := by
  intro cs
  induction cs with
  | nil =>
    intro component _ hslash _
    obtain ⟨w, ws, hnil, heq⟩ := splitSlash_append hslash []
    obtain ⟨rfl, rfl⟩ : w = [] ∧ ws = [] := by simpa [splitSlash, eq_comm] using hnil
    rw [heq, List.append_nil, List.forall_mem_singleton, validPathLoop]
    split_ifs with h0
    · rw [List.length_eq_zero_iff.1 h0]
      simp [validPathComponent]
    · rfl
  | cons c cs ih =>
    intro component hzero hslash hlen
    obtain ⟨hc0, hzero⟩ := List.forall_mem_cons.1 hzero
    obtain ⟨w, ws, hcs, heq⟩ := splitSlash_append hslash (c :: cs)
    rw [heq, validPathLoop]
    by_cases hc : c = 0x2F
    · obtain ⟨rfl, rfl⟩ : w = [] ∧ ws = splitSlash cs := by
        rw [splitSlash, if_pos hc] at hcs
        exact ⟨(List.cons.inj hcs).1.symm, (List.cons.inj hcs).2.symm⟩
      rw [if_pos (.inl hc), List.append_nil, List.forall_mem_cons]
      split_ifs with h0 hv
      · rw [List.length_eq_zero_iff.1 h0]
        simp [validPathComponent]
      · simp only [Bool.not_eq_true'] at hv
        simp [hv]
      · have := ih [] hzero (by simp) (by simp)
        rw [this, List.nil_append]
        simp only [Bool.not_eq_true', Bool.not_eq_false] at hv
        simp [hv]
    · rw [if_neg (by rintro (h | h); exacts [hc h, hc0 h])]
      have hslash' : ∀ x ∈ component ++ [c], x ≠ 0x2F :=
        List.forall_mem_append.2 ⟨hslash, by simpa using hc⟩
      obtain ⟨w', ws', hcs', heq'⟩ := splitSlash_append hslash' cs
      rw [List.append_assoc, List.singleton_append, heq] at heq'
      rw [heq']
      split_ifs with h12
      · -- a component of more than 12 bytes is refused either way
        refine ⟨fun h => (nomatch h), fun h => ?_⟩
        obtain ⟨name, hname⟩ := validPathComponent_iff.1 (h _ (List.mem_cons_self ..))
        have := encodeShortName_length hname
        rw [List.length_append, List.length_append, List.length_singleton] at this
        omega
      · have := ih (component ++ [c]) hzero hslash' (by
          rw [List.length_append, List.length_singleton]
          omega)
        rw [this, List.append_assoc, List.singleton_append, heq, heq']

theorem validPath_iff {body : CString} (hzero : ∀ c ∈ body, c ≠ 0) : validPath body = true ↔
    body ≠ [] ∧ ∀ w ∈ splitSlash body, ∃ name, encodeShortName w = some name := by
  unfold validPath
  cases body with
  | nil => simp
  | cons c body =>
    have hloop := validPathLoop_iff (c :: body) [] hzero (by simp) (by simp)
    rw [List.headD_cons, if_neg (List.forall_mem_cons.1 hzero).1, hloop, List.nil_append]
    simp only [validPathComponent_iff]
    simp

theorem writePathBody_eq {path : CString} (hlen : (path.takeWhile (· ≠ 0)).length ≤ 127) :
    writePathBody path = pathBody path ∧ pathLength path = (path.takeWhile (· ≠ 0)).length := by
  have hlength : pathLength path = (path.takeWhile (· ≠ 0)).length := by
    unfold pathLength
    rw [← List.take_takeWhile, List.take_of_length_le (by omega)]
  refine ⟨?_, hlength⟩
  have htake : path.take (path.takeWhile (· ≠ 0)).length = path.takeWhile (· ≠ 0) :=
    (List.prefix_iff_eq_take.1 (List.takeWhile_prefix _)).symm
  unfold writePathBody pathBody
  rw [hlength, htake]
  cases path with
  | nil => rfl
  | cons c path =>
    rw [List.headD_cons]
    split_ifs with hc
    · rw [hc]
      rfl
    · rfl

theorem value_resolve_cases {g : BpbGeometry} (hm : g.mirroringEnabled = true) (d : Disk)
    {path : CString} (hlen : (path.takeWhile (· ≠ 0)).length ≤ 127) :
    (value (resolvePath (some g) (some path)) d = .error .invalidName ∧
      value (resolveEntry (some g) (some path)) d = .error .invalidName) ∨
    (∀ w ∈ splitSlash (pathBody path), ∃ name, encodeShortName w = some name ∧ w.length ≤ 12) ∧
      value (resolvePath (some g) (some path)) d =
        value (resolveFrom g g.rootCluster (splitSlash (pathBody path))) d ∧
      value (resolveEntry (some g) (some path)) d =
        value (resolveComponents g g.rootCluster (splitSlash (pathBody path))) d := by
  obtain ⟨hbody, hlength⟩ := writePathBody_eq hlen
  have hzero : ∀ c ∈ pathBody path, c ≠ 0 := by
    intro c hc
    simpa using List.mem_takeWhile_imp hc
  have hhead : (pathBody path).headD 0 = 0 ↔ pathBody path = [] := by
    cases hp : pathBody path with
    | nil => simp
    | cons c cs =>
      rw [hp] at hzero
      simp [(List.forall_mem_cons.1 hzero).1]
  unfold resolvePath resolveEntry
  dsimp only
  rw [hbody]
  by_cases hv : validPath (pathBody path) = true
  · obtain ⟨hne, hall⟩ := (validPath_iff hzero).1 hv
    refine .inr ⟨fun w hw => ?_, ?_, ?_⟩
    · obtain ⟨name, hname⟩ := hall w hw
      exact ⟨name, hname, encodeShortName_length hname⟩
    · have hpos : ¬(pathLength path = 0 ∨ pathLength path = 128) := by
        rw [hlength]
        rintro (h | h)
        · apply hne
          rw [← hbody]
          unfold writePathBody
          rw [hlength, h, List.take_zero, List.drop_nil]
        · omega
      have hany : ¬((splitSlash (pathBody path)).any fun c => (encodeShortName c).isNone) = true := by
        rw [List.any_eq_true]
        rintro ⟨w, hw, hnone⟩
        obtain ⟨name, hname⟩ := hall w hw
        rw [hname] at hnone
        exact nomatch hnone
      rw [if_neg hpos, if_neg hne, if_neg hany, geometryForWrite_bind, if_pos hm]
    · rw [if_neg]
      rintro (h | h)
      · exact hne (hhead.1 h)
      · rw [hv] at h
        exact nomatch h
  · refine .inl ⟨?_, ?_⟩
    · split_ifs with h1 h2 h3
      · rfl
      · rfl
      · rfl
      · refine absurd ((validPath_iff hzero).2 ⟨h2, fun w hw => ?_⟩) hv
        rw [List.any_eq_true, not_exists] at h3
        have hw' := h3 w
        cases hname : encodeShortName w with
        | none => exact absurd ⟨hw, by rw [hname]; rfl⟩ hw'
        | some name => exact ⟨name, rfl⟩
    · rw [if_pos (.inr (by simpa using hv))]
      rfl

theorem Reads.value_eq {α : Type} {limit : Nat} {m : Io α} (h : Reads limit m) {dev : Device}
    (hio : (m.exec dev).1 ≠ .error .ioError) : (m.exec dev).1 = value m dev.sectors :=
  (h.outcome dev).2.2.resolve_right fun hr => hio hr.1

theorem statPath_ok_iff {g : BpbGeometry} {path : CString} (hroot : isRootPath path = false)
    (dev : Device) (info : FileEntry) :
    ((statPath (some g) (some path)).exec dev).1 = .ok info ↔
      ∃ entry, ((resolveEntry (some g) (some path)).exec dev).1 = .ok entry ∧
        info = entry.toFileEntry := by
  unfold statPath
  dsimp only
  rw [if_neg (by rw [hroot]; decide), Exec.exec_bind]
  cases (resolveEntry (some g) (some path)).exec dev with
  | mk r dev' =>
    cases r with
    | ok entry => simp [eq_comm]
    | error e => simp

theorem firstCluster_eq_mod (e : Entry) : firstCluster e = storedCluster e % 2 ^ 28 := by
  have hlo := le16_lt e.byte 26
  unfold firstCluster storedCluster
  omega

/-- **Reader and writer name the same objects.** On a mirrored volume whose live entries have plain
names, when neither lookup meets an I/O error or a corrupt chain, `resolve_path` reports an existing
object exactly when `resolve_entry` finds one. Both then give the same kind and size, and the
writer's first cluster is the reader's without the reserved bits. -/
theorem lookups_agree (sector : Sector) (diskSectors : Nat) (g : BpbGeometry)
    (hg : parseBpb sector diskSectors = some g) (hm : g.mirroringEnabled = true)
    (dev dev' : Device) (hdisk : dev'.sectors = dev.sectors) (hplain : PlainVolume g dev.sectors)
    (path : CString) (hlen : (path.takeWhile (· ≠ 0)).length ≤ 127) :
    let written := ((resolvePath (some g) (some path)).exec dev).1
    let read := ((resolveEntry (some g) (some path)).exec dev').1
    let stat := ((statPath (some g) (some path)).exec dev').1
    written ≠ .error .ioError → written ≠ .error .corrupt →
    read ≠ .error .ioError → read ≠ .error .corrupt →
    ((∃ r, written = .ok r ∧ r.existing = true) ↔ ∃ entry, read = .ok entry) ∧
    (∀ r entry, written = .ok r → r.existing = true → read = .ok entry →
      isDirectoryEntry r.entry = entry.isDirectory ∧ le32 r.entry.byte 28 = entry.size ∧
      firstCluster r.entry = entry.firstCluster % 2 ^ 28) ∧
    (isRootPath path = false → ∀ info, stat = .ok info ↔
      ∃ entry, read = .ok entry ∧ info = entry.toFileEntry) := by
  intro written read stat hio hcorrupt hio' hcorrupt'
  have hsound := parseBpb_sound hg
  have hactive := hsound.mirrored hm
  have hwritten : written = value (resolvePath (some g) (some path)) dev.sectors :=
    Reads.value_eq (reads_resolvePath _) hio
  have hread : read = value (resolveEntry (some g) (some path)) dev.sectors := by
    rw [← hdisk]
    exact Reads.value_eq (reads_resolveEntry hsound _) hio'
  rw [hwritten] at hcorrupt ⊢
  refine ⟨?_, ?_, ?_⟩
  rotate_left 2
  · exact fun hroot info => statPath_ok_iff hroot dev' info
  all_goals rw [hread] at hcorrupt' ⊢
  all_goals rcases value_resolve_cases hm dev.sectors hlen with ⟨hw, hr⟩ | ⟨hcomponents, hw, hr⟩
  · rw [hw, hr]
    exact ⟨fun ⟨_, h, _⟩ => (nomatch h), fun ⟨_, h⟩ => (nomatch h)⟩
  · rw [hw] at hcorrupt ⊢
    rw [hr] at hcorrupt' ⊢
    rcases resolveFrom_resolveComponents hsound hactive hplain _ _ .root hcomponents hcorrupt hcorrupt'
      with ⟨r, entry, hok, hex, hok', -⟩ | ⟨hno, hno'⟩
    · exact ⟨fun _ => ⟨entry, hok'⟩, fun _ => ⟨r, hok, hex⟩⟩
    · refine ⟨fun ⟨r, hok, hex⟩ => ?_, fun ⟨entry, hok'⟩ => absurd hok' (hno' entry)⟩
      rw [hno r hok] at hex
      exact nomatch hex
  · intro r entry hok
    rw [hw] at hok
    exact nomatch hok
  · rw [hw] at hcorrupt ⊢
    rw [hr] at hcorrupt' ⊢
    intro r entry hok hex hok'
    rcases resolveFrom_resolveComponents hsound hactive hplain _ _ .root hcomponents hcorrupt hcorrupt'
      with ⟨r', entry', hfound, -, hfound', hdec⟩ | ⟨hno, -⟩
    · obtain rfl := Except.ok.inj (hok.symm.trans hfound)
      obtain rfl := Except.ok.inj (hok'.symm.trans hfound')
      obtain ⟨-, -, shown, -, rfl⟩ := decode_normal_iff.1 hdec
      exact ⟨rfl, rfl, firstCluster_eq_mod _⟩
    · rw [hno r hok] at hex
      exact nomatch hex

def oneEntryDisk (name : List UInt8) (lba : Nat) : Sector :=
  if lba = 32 ∨ lba = 544 then fun j =>
    ([0xF8, 0xFF, 0xFF, 0x0F, 0xFF, 0xFF, 0xFF, 0x0F, 0xFF, 0xFF, 0xFF, 0x0F] : List UInt8).getD j.val 0
  else if lba = 1056 then fun j => (name ++ [0x20]).getD j.val 0
  else if lba = 0 then smallBoot
  else Sector.zero

def spacedName : List UInt8 := [0x41, 0x20, 0x42, 0x20, 0x20, 0x20, 0x20, 0x20, 0x54, 0x58, 0x54]

def plainStoredName : List UInt8 :=
  [0x41, 0x20, 0x20, 0x20, 0x20, 0x20, 0x20, 0x20, 0x54, 0x58, 0x54]

def shortPath : CString := [0x41, 0x2E, 0x54, 0x58, 0x54]

theorem plainVolume_oneEntry : PlainVolume smallGeometry (oneEntryDisk plainStoredName) := by
  have hslots : usedSlots smallGeometry (oneEntryDisk plainStoredName) 2 = [⟨1056, 0⟩] := by
    decide +kernel
  have hreached : ∀ c, DirReached smallGeometry (oneEntryDisk plainStoredName) c → c = 2 := by
    intro c hc
    induction hc with
    | root => rfl
    | @child c slot _ used _ directory ih =>
      rw [ih, hslots, List.mem_singleton] at used
      subst used
      exact absurd directory (by decide +kernel)
  intro c slot hc hslot _
  rw [hreached c hc, hslots, List.mem_singleton] at hslot
  subst hslot
  exact .inr (by decide +kernel)

def oneEntryDevice (name : List UInt8) : Device := ⟨oneEntryDisk name, 66586, true, fun _ => .none, []⟩

theorem lookups_agree_short :
    (∃ r, ((resolvePath (some smallGeometry) (some shortPath)).exec
      (oneEntryDevice plainStoredName)).1 = .ok r ∧ r.existing = true) ∧
    ∃ entry, ((resolveEntry (some smallGeometry) (some shortPath)).exec
      (oneEntryDevice plainStoredName)).1 = .ok entry := by
  have hagree := lookups_agree smallBoot 66586 smallGeometry parseBpb_smallBoot rfl
    (oneEntryDevice plainStoredName) (oneEntryDevice plainStoredName) rfl plainVolume_oneEntry
    shortPath (by decide +kernel)
  have hwritten : (match ((resolvePath (some smallGeometry) (some shortPath)).exec
      (oneEntryDevice plainStoredName)).1 with
    | .ok r => r.existing
    | .error _ => false) = true := by decide +kernel
  have hread : (match ((resolveEntry (some smallGeometry) (some shortPath)).exec
      (oneEntryDevice plainStoredName)).1 with
    | .ok _ => true
    | .error _ => false) = true := by decide +kernel
  cases hw : ((resolvePath (some smallGeometry) (some shortPath)).exec
      (oneEntryDevice plainStoredName)).1 with
  | error e =>
    rw [hw] at hwritten
    exact nomatch hwritten
  | ok r =>
    cases hr : ((resolveEntry (some smallGeometry) (some shortPath)).exec
        (oneEntryDevice plainStoredName)).1 with
    | error e =>
      rw [hr] at hread
      exact nomatch hread
    | ok entry =>
      rw [hw] at hwritten
      dsimp only at hagree
      rw [hw, hr] at hagree
      have hiff := (hagree (fun h => (nomatch h)) (fun h => (nomatch h)) (fun h => (nomatch h))
        fun h => (nomatch h)).1
      exact ⟨⟨r, rfl, hwritten⟩, hiff.1 ⟨r, rfl, hwritten⟩⟩

/-- A space inside the stored name: the reader shows and finds `A.TXT`, the writer does not. -/
theorem lookups_differ_on_spaces :
    parseBpb smallBoot 66586 = some smallGeometry ∧ smallGeometry.mirroringEnabled = true ∧
    (match ((resolvePath (some smallGeometry) (some shortPath)).exec
        (oneEntryDevice spacedName)).1 with
      | .ok r => r.existing
      | .error _ => true) = false ∧
    (match ((resolveEntry (some smallGeometry) (some shortPath)).exec
        (oneEntryDevice spacedName)).1 with
      | .ok entry => entry.name == shortPath
      | .error _ => false) = true :=
  ⟨parseBpb_smallBoot, rfl, by decide +kernel, by decide +kernel⟩

end Linux95.Fat32
