import Mathlib.Data.List.GetD
import Linux95.Base.Wp
import Linux95.Net.DnsMessage

/-! Names inside messages: what a compressed name stands for, and that `decode_name` finds exactly that
in a bounded number of turns without reading outside the message. -/

namespace Linux95.Net.Dns
open Base (ok_bind)

/-- The name at a position of the message: labels of 1 to 63 bytes, a zero at the end, and pointers to
other positions. `jumps` are the targets of the pointers on the way and `next` is the position behind
the zero or the first pointer. -/
inductive Expands (message : List UInt8) : Nat → List Nat → Name → Nat → Prop
  | root {position : Nat} (hin : position < message.length) (hbyte : byteAt message position = 0) :
      Expands message position [] [0] (position + 1)
  | label {position next : Nat} {jumps : List Nat} {rest : Name} (hpos : 0 < (byteAt message position).toNat)
      (hle : (byteAt message position).toNat ≤ 63)
      (hin : position + 1 + (byteAt message position).toNat ≤ message.length)
      (hrest : Expands message (position + 1 + (byteAt message position).toNat) jumps rest next) :
      Expands message position jumps
        ((message.drop position).take ((byteAt message position).toNat + 1) ++ rest) next
  | pointer {position next : Nat} {jumps : List Nat} {name : Name} (hin : position + 1 < message.length)
      (htag : 192 ≤ (byteAt message position).toNat) (target : Nat)
      (htarget : target = (byteAt message position).toNat % 64 * 2 ^ 8 + (byteAt message (position + 1)).toNat)
      (hlt : target < message.length) (hrest : Expands message target jumps name next) :
      Expands message position (target :: jumps) name (position + 2)

/-- The expansion stays within the limits: 16 pointers to different targets, and 255 bytes. -/
def Expansion (message : List UInt8) (position : Nat) (name : Name) (next : Nat) : Prop :=
  ∃ jumps, Expands message position jumps name next ∧ jumps.length ≤ 16 ∧ jumps.Nodup ∧ name.length ≤ 255

section Inversion
variable {message : List UInt8} {position next : Nat} {jumps : List Nat} {name : Name}

theorem Expands.lt_length (h : Expands message position jumps name next) : position < message.length := by
  cases h <;> omega

theorem Expands.next_bounds (h : Expands message position jumps name next) :
    position < next ∧ next ≤ message.length := by
  -- the position behind the name lies ahead and inside the message
  induction h with
  | root hin => omega
  | label _ _ _ _ ih => omega
  | pointer hin => omega

theorem Expands.ne_nil (h : Expands message position jumps name next) : name ≠ [] := by
  induction h with
  | root => exact List.cons_ne_nil 0 []
  | label _ _ _ _ ih => exact List.append_ne_nil_of_right_ne_nil _ ih
  | pointer _ _ _ _ _ _ ih => exact ih

theorem label_eq_cons (hin : position < message.length) (n : Nat) : (message.drop position).take (n + 1) =
    byteAt message position :: (message.drop (position + 1)).take n := by
  rw [List.drop_eq_getElem_cons hin, List.take_succ_cons, byteAt, List.getD_eq_getElem _ _ hin]

theorem Expands.validLabels (h : Expands message position jumps name next) :
    ∀ turns, name.length ≤ turns → validLabels turns name = true := by
  induction h with
  | root =>
    intro turns hle
    obtain ⟨turns, rfl⟩ : ∃ k, turns = k + 1 := ⟨turns - 1, by rw [List.length_singleton] at hle; omega⟩
    rw [Dns.validLabels, if_pos rfl]
    rfl
  | @label position next jumps rest hpos hle hin _ ih =>
    intro turns hturns
    have hlen : ((message.drop (position + 1)).take (byteAt message position).toNat).length =
        (byteAt message position).toNat := by
      rw [List.length_take, List.length_drop]
      omega
    rw [label_eq_cons (by omega), List.cons_append] at hturns ⊢
    rw [List.length_cons, List.length_append, hlen] at hturns
    obtain ⟨turns, rfl⟩ : ∃ k, turns = k + 1 := ⟨turns - 1, by omega⟩
    rw [Dns.validLabels, if_neg, if_neg, List.drop_append, hlen, List.drop_of_length_le hlen.le, Nat.sub_self]
    · exact ih turns (by omega)
    · rw [List.length_append, hlen]
      omega
    · intro hzero
      rw [hzero] at hpos
      exact absurd hpos (by decide)
  | pointer _ _ _ _ _ _ ih => exact ih

theorem Expansion.validWireName (h : Expansion message position name next) : validWireName name = true := by
  obtain ⟨jumps, h, -, -, hle⟩ := h
  have hpos := List.length_pos_iff.mpr h.ne_nil
  unfold Dns.validWireName
  rw [if_neg (by omega)]
  exact h.validLabels _ le_rfl

theorem expands_pointer (htag : (byteAt message position).toNat / 64 = 3) :
    Expands message position jumps name next ↔ position + 1 < message.length ∧
      ∃ jumps' next', jumps = ((byteAt message position).toNat % 64 * 2 ^ 8 +
          (byteAt message (position + 1)).toNat) :: jumps' ∧ next = position + 2 ∧
        (byteAt message position).toNat % 64 * 2 ^ 8 + (byteAt message (position + 1)).toNat < message.length ∧
        Expands message ((byteAt message position).toNat % 64 * 2 ^ 8 + (byteAt message (position + 1)).toNat)
          jumps' name next' := by
  constructor
  · intro h
    cases h with
    | root hin hbyte =>
      rw [hbyte] at htag
      exact absurd htag (by decide)
    | label hpos hle => omega
    | pointer hin _ target htarget hlt hrest =>
      subst htarget
      exact ⟨hin, _, _, rfl, rfl, hlt, hrest⟩
  · rintro ⟨hin, jumps', next', rfl, rfl, hlt, hrest⟩
    exact .pointer hin (by omega) _ rfl hlt hrest

theorem not_expands_reserved (htag : (byteAt message position).toNat / 64 ≠ 3)
    (hreserved : (byteAt message position).toNat / 64 ≠ 0) : ¬ Expands message position jumps name next := by
  have hlt := (byteAt message position).toNat_lt
  intro h
  cases h with
  | root hin hbyte =>
    rw [hbyte] at hreserved
    exact hreserved (by decide)
  | label hpos hle => omega
  | pointer hin htag' => omega

theorem expands_root (hin : position < message.length) (hzero : (byteAt message position).toNat = 0) :
    Expands message position jumps name next ↔ jumps = [] ∧ name = [0] ∧ next = position + 1 := by
  constructor
  · intro h
    cases h with
    | root => exact ⟨rfl, rfl, rfl⟩
    | label hpos => omega
    | pointer _ htag => omega
  · rintro ⟨rfl, rfl, rfl⟩
    exact .root hin (UInt8.toNat_inj.mp hzero)

theorem expands_label (hpos : 0 < (byteAt message position).toNat) (hle : (byteAt message position).toNat ≤ 63) :
    Expands message position jumps name next ↔
      position + 1 + (byteAt message position).toNat ≤ message.length ∧
      ∃ rest, name = (message.drop position).take ((byteAt message position).toNat + 1) ++ rest ∧
        Expands message (position + 1 + (byteAt message position).toNat) jumps rest next := by
  constructor
  · intro h
    cases h with
    | root hin hbyte =>
      rw [hbyte] at hpos
      exact absurd hpos (by decide)
    | label _ _ hin hrest => exact ⟨hin, _, rfl, hrest⟩
    | pointer _ htag => omega
  · rintro ⟨hin, rest, rfl, hrest⟩
    exact .label hpos hle hin hrest

end Inversion

section Decode
variable {message : List UInt8}

theorem length_label {position n : Nat} (h : position + 1 + n ≤ message.length) :
    ((message.drop position).take (n + 1)).length = n + 1 := by
  rw [List.length_take, List.length_drop]
  omega

theorem decodeFrom_iff {name : Name} {next : Nat} : ∀ turns position jumps resume decoded,
    jumps.length ≤ 16 → decoded.length ≤ 254 → 271 ≤ turns + jumps.length + decoded.length →
    (decodeFrom message turns position jumps resume decoded = some (name, next) ↔
      ∃ js rest n, Expands message position js rest n ∧ name = decoded ++ rest ∧ next = resume.getD n ∧
        jumps.length + js.length ≤ 16 ∧ js.Nodup ∧ (∀ t ∈ js, t ∉ jumps) ∧ name.length ≤ 255) := by
  intro turns
  induction turns with
  | zero =>
    intro position jumps resume decoded hjumps hdecoded hturns
    omega
  | succ turns ih =>
    intro position jumps resume decoded hjumps hdecoded hturns
    unfold decodeFrom
    dsimp only
    -- the tests in the order of the source: the end, a pointer, a reserved tag, the root, a label
    by_cases hin : position ≥ message.length
    · rw [if_pos hin]
      refine iff_of_false (by simp) ?_
      rintro ⟨js, rest, n, h, -⟩
      exact absurd h.lt_length (by omega)
    rw [if_neg hin]
    by_cases htag : (byteAt message position).toNat / 64 = 3
    · rw [if_pos htag]
      simp only [expands_pointer htag]
      generalize (byteAt message position).toNat % 64 * 2 ^ 8 + (byteAt message (position + 1)).toNat = target
      by_cases hbad : position + 1 ≥ message.length ∨ jumps.length = 16 ∨ target ≥ message.length ∨ target ∈ jumps
      · rw [if_pos hbad]
        refine iff_of_false (by simp) ?_
        rintro ⟨_, rest, n, ⟨hlt, js, next', rfl, -, htarget, -⟩, -, -, hcount, -, hnew, -⟩
        rw [List.length_cons] at hcount
        have hnot := hnew target List.mem_cons_self
        grind
      · rw [if_neg hbad]
        push Not at hbad
        obtain ⟨hlt, hcount, htarget, hnot⟩ := hbad
        -- a pointer takes one of the sixteen jumps, so the bound on the turns goes down with it
        rw [ih target (target :: jumps) _ decoded (by rw [List.length_cons]; omega) hdecoded
          (by rw [List.length_cons]; omega)]
        constructor
        · rintro ⟨js, rest, n, h, hname, hnext, hlen, hnodup, hnew, hle⟩
          refine ⟨target :: js, rest, position + 2, ⟨hlt, js, n, rfl, rfl, htarget, h⟩, hname, hnext, ?_, ?_, ?_, hle⟩
          · rw [List.length_cons] at hlen ⊢
            omega
          · exact List.nodup_cons.mpr ⟨fun hmem => hnew target hmem List.mem_cons_self, hnodup⟩
          · refine List.forall_mem_cons.mpr ⟨hnot, fun t ht hmem => hnew t ht (List.mem_cons_of_mem _ hmem)⟩
        · rintro ⟨_, rest, _, ⟨-, js, n, rfl, rfl, -, h⟩, hname, hnext, hlen, hnodup, hnew, hle⟩
          rw [List.nodup_cons] at hnodup
          rw [List.forall_mem_cons] at hnew
          refine ⟨js, rest, n, h, hname, hnext, ?_, hnodup.2, fun t ht hmem => ?_, hle⟩
          · rw [List.length_cons] at hlen ⊢
            omega
          · obtain rfl | hmem := List.mem_cons.mp hmem
            · exact hnodup.1 ht
            · exact hnew.2 t ht hmem
    rw [if_neg htag]
    by_cases hreserved : (byteAt message position).toNat / 64 ≠ 0
    · rw [if_pos hreserved]
      refine iff_of_false (by simp) ?_
      rintro ⟨js, rest, n, h, -⟩
      exact not_expands_reserved htag hreserved h
    rw [if_neg hreserved]
    by_cases hzero : (byteAt message position).toNat = 0
    · rw [if_pos hzero, if_neg (by omega)]
      simp only [expands_root (Nat.lt_of_not_le hin) hzero, Option.some.injEq, Prod.mk.injEq]
      constructor
      · rintro ⟨rfl, rfl⟩
        refine ⟨[], [0], _, ⟨rfl, rfl, rfl⟩, rfl, rfl, hjumps, List.nodup_nil, by simp, ?_⟩
        rw [List.length_append, List.length_singleton]
        omega
      · rintro ⟨_, _, _, ⟨rfl, rfl, rfl⟩, rfl, rfl, -⟩
        exact ⟨rfl, rfl⟩
    rw [if_neg hzero]
    simp only [expands_label (Nat.pos_of_ne_zero hzero) (show (byteAt message position).toNat ≤ 63 by omega)]
    generalize (byteAt message position).toNat = k at hzero
    by_cases hbad : k > message.length - (position + 1) ∨ decoded.length + k + 2 > 255
    · rw [if_pos hbad]
      refine iff_of_false (by simp) ?_
      rintro ⟨js, _, n, ⟨hfit, rest, rfl, h⟩, rfl, -, -, -, -, hle⟩
      have hrest := List.length_pos_iff.mpr h.ne_nil
      rw [List.length_append, List.length_append, length_label hfit] at hle
      omega
    · rw [if_neg hbad]
      have hfit : position + 1 + k ≤ message.length := by omega
      have hlen : (decoded ++ (message.drop position).take (k + 1)).length = decoded.length + (k + 1) := by
        rw [List.length_append, length_label hfit]
      rw [ih (position + 1 + k) jumps resume _ hjumps (by omega) (by omega)]
      constructor
      · rintro ⟨js, rest, n, h, hname, hrest⟩
        exact ⟨js, _, n, ⟨hfit, rest, rfl, h⟩, by rw [hname, List.append_assoc], hrest⟩
      · rintro ⟨js, _, n, ⟨-, rest, rfl, h⟩, hname, hrest⟩
        exact ⟨js, rest, n, h, by rw [hname, List.append_assoc], hrest⟩

theorem decodeName_iff {cursor next : Nat} {name : Name} :
    decodeName message cursor = some (name, next) ↔ Expansion message cursor name next := by
  unfold decodeName
  rw [decodeFrom_iff 272 cursor [] none [] (by simp) (by simp) (by simp)]
  constructor
  · rintro ⟨js, rest, n, h, rfl, rfl, hlen, hnodup, -, hle⟩
    exact ⟨js, h, by simpa using hlen, hnodup, hle⟩
  · rintro ⟨js, h, hlen, hnodup, hle⟩
    exact ⟨js, name, next, h, rfl, rfl, by simpa using hlen, hnodup, by simp, hle⟩

end Decode

/-- What would go wrong in `decode_name`: an index outside the message or outside `wire`, or a loop that
is still running after all turns. -/
inductive Fault where
  | outOfBounds | outOfTurns
  deriving DecidableEq, Repr

def readByte (message : List UInt8) (index : Nat) : Except Fault UInt8 :=
  if index < message.length then .ok (byteAt message index) else .error .outOfBounds

def pushByte (decoded : Name) (byte : UInt8) : Except Fault Name :=
  if decoded.length < 255 then .ok (decoded ++ [byte]) else .error .outOfBounds

def copyLabel (message : List UInt8) : Nat → Nat → Name → Except Fault Name
  | 0, _, decoded => .ok decoded
  | n + 1, position, decoded => do
    let byte ← readByte message position
    let decoded ← pushByte decoded byte
    copyLabel message n (position + 1) decoded

/-- The loop of `decode_name` with each access checked. -/
def decodeLoop (message : List UInt8) :
    Nat → Nat → List Nat → Option Nat → Name → Except Fault (Option (Name × Nat))
  | 0, _, _, _, _ => .error .outOfTurns
  | turns + 1, position, jumps, resume, decoded =>
    if position < message.length then do
      let labelLength ← readByte message position
      if labelLength.toNat / 64 = 3 then
        if position + 1 ≥ message.length ∨ jumps.length = 16 then pure none
        else do
          let low ← readByte message (position + 1)
          let target := labelLength.toNat % 64 * 2 ^ 8 + low.toNat
          if target ≥ message.length then pure none
          else if target ∈ jumps then pure none
          else decodeLoop message turns target (target :: jumps) (some (resume.getD (position + 2))) decoded
      else if labelLength.toNat / 64 ≠ 0 then pure none
      else if labelLength.toNat = 0 then
        if decoded.length ≥ 255 then pure none
        else do
          let name ← pushByte decoded 0
          pure (some (name, resume.getD (position + 1)))
      else if labelLength.toNat > message.length - (position + 1) ∨
          decoded.length + labelLength.toNat + 2 > 255 then pure none
      else do
        let decoded ← pushByte decoded labelLength
        let decoded ← copyLabel message labelLength.toNat (position + 1) decoded
        decodeLoop message turns (position + 1 + labelLength.toNat) jumps resume decoded
    else pure none

/-- A call of `decode_name` on a message that may be null, with `cursor` and `out` as they are before and
after it. -/
def decodeNameCall (message : Option (List UInt8)) (cursor : Nat) (out : Name) :
    Except Fault (Bool × Nat × Name) :=
  match message with
  | none => pure (false, cursor, out)
  | some message =>
    if cursor ≥ message.length then pure (false, cursor, out)
    else do
      match ← decodeLoop message 272 cursor [] none [] with
      | none => pure (false, cursor, out)
      | some (decoded, next) => pure (true, next, decoded)

section Checked
variable {message : List UInt8}

theorem readByte_ok {i : Nat} (h : i < message.length) : readByte message i = .ok (byteAt message i) := if_pos h

theorem pushByte_ok {decoded : Name} (h : decoded.length < 255) (byte : UInt8) :
    pushByte decoded byte = .ok (decoded ++ [byte]) := if_pos h

theorem copyLabel_ok : ∀ (n position : Nat) (decoded : Name), position + n ≤ message.length →
    decoded.length + n ≤ 255 → copyLabel message n position decoded = .ok (decoded ++ (message.drop position).take n) := by
  intro n
  induction n with
  | zero =>
    intro position decoded _ _
    rw [List.take_zero, List.append_nil]
    rfl
  | succ n ih =>
    intro position decoded hin hle
    have hrest := ih (position + 1) (decoded ++ [byteAt message position]) (by omega)
      (by rw [List.length_append, List.length_singleton]; omega)
    rw [copyLabel, readByte_ok (by omega), ok_bind, pushByte_ok (by omega), ok_bind, hrest,
      label_eq_cons (by omega), List.append_assoc, List.singleton_append]

/-- Every turn follows a pointer or lengthens the name, so the loop ends; and no access leaves its array. -/
theorem decodeLoop_ok : ∀ turns position jumps resume decoded,
    jumps.length ≤ 16 → decoded.length ≤ 254 → 271 ≤ turns + jumps.length + decoded.length →
    decodeLoop message turns position jumps resume decoded =
      .ok (decodeFrom message turns position jumps resume decoded) := by
  intro turns
  induction turns with
  | zero =>
    intro position jumps resume decoded hjumps hdecoded hturns
    omega
  | succ turns ih =>
    intro position jumps resume decoded hjumps hdecoded hturns
    unfold decodeLoop decodeFrom
    dsimp only
    by_cases hin : position < message.length
    · rw [if_pos hin, if_neg (show ¬ position ≥ message.length by omega), readByte_ok hin, ok_bind]
      by_cases htag : (byteAt message position).toNat / 64 = 3
      · rw [if_pos htag, if_pos htag]
        by_cases hbad : position + 1 ≥ message.length ∨ jumps.length = 16
        · rw [if_pos hbad, if_pos (hbad.imp_right .inl)]
          rfl
        · rw [if_neg hbad, readByte_ok (by omega), ok_bind]
          push Not at hbad
          generalize (byteAt message position).toNat % 64 * 2 ^ 8 + (byteAt message (position + 1)).toNat = target
          by_cases htarget : target ≥ message.length
          · rw [if_pos htarget, if_pos (.inr (.inr (.inl htarget)))]
            rfl
          rw [if_neg htarget]
          by_cases hmem : target ∈ jumps
          · rw [if_pos hmem, if_pos (.inr (.inr (.inr hmem)))]
            rfl
          have hgood : ¬ (position + 1 ≥ message.length ∨ jumps.length = 16 ∨ target ≥ message.length ∨ target ∈ jumps) := by
            grind
          rw [if_neg hmem, if_neg hgood]
          exact ih _ _ _ _ (by rw [List.length_cons]; omega) hdecoded (by rw [List.length_cons]; omega)
      rw [if_neg htag, if_neg htag]
      by_cases hreserved : (byteAt message position).toNat / 64 ≠ 0
      · rw [if_pos hreserved, if_pos hreserved]
        rfl
      rw [if_neg hreserved, if_neg hreserved]
      by_cases hzero : (byteAt message position).toNat = 0
      · have hroom : ¬ decoded.length ≥ 255 := by omega
        rw [if_pos hzero, if_pos hzero, if_neg hroom, if_neg hroom, pushByte_ok (by omega)]
        rfl
      rw [if_neg hzero, if_neg hzero]
      by_cases hbad : (byteAt message position).toNat > message.length - (position + 1) ∨
          decoded.length + (byteAt message position).toNat + 2 > 255
      · rw [if_pos hbad, if_pos hbad]
        rfl
      have hfit : position + 1 + (byteAt message position).toNat ≤ message.length := by omega
      have hlen : (decoded ++ (message.drop position).take ((byteAt message position).toNat + 1)).length =
          decoded.length + ((byteAt message position).toNat + 1) := by
        rw [List.length_append, length_label hfit]
      rw [if_neg hbad, if_neg hbad, pushByte_ok (by omega), ok_bind,
        copyLabel_ok _ _ _ hfit (by rw [List.length_append, List.length_singleton]; omega), ok_bind,
        List.append_assoc, List.singleton_append, ← label_eq_cons hin]
      exact ih _ _ _ _ hjumps (by omega) (by omega)
    · rw [if_neg hin, if_pos (by omega)]
      rfl

theorem decodeNameCall_eq (cursor : Nat) (out : Name) : decodeNameCall (some message) cursor out =
    match decodeName message cursor with
    | none => .ok (false, cursor, out)
    | some (decoded, next) => .ok (true, next, decoded) := by
  unfold decodeNameCall
  dsimp only
  by_cases hin : cursor ≥ message.length
  · have hnone : decodeName message cursor = none := if_pos hin
    rw [if_pos hin, hnone]
    rfl
  · rw [if_neg hin, decodeLoop_ok 272 cursor [] none [] (by simp) (by simp) (by simp), ok_bind]
    rfl

end Checked

/-- `decode_name` always ends without leaving the message, moves on over exactly the expansion of the
name at its cursor, and changes nothing when there is none. -/
theorem decodeName_exact (message : List UInt8) (cursor : Nat) (out : Name) :
    ∃ found cursor' out', decodeNameCall (some message) cursor out = .ok (found, cursor', out') ∧
      (∀ name next, Expansion message cursor name next ↔ found = true ∧ name = out' ∧ next = cursor') ∧
      (found = true → validWireName out' = true ∧ cursor < cursor' ∧ cursor' ≤ message.length) ∧
      (found = false → cursor' = cursor ∧ out' = out) ∧
      decodeNameCall none cursor out = .ok (false, cursor, out) := by
  rw [decodeNameCall_eq]
  cases h : decodeName message cursor with
  | none =>
    refine ⟨false, cursor, out, rfl, fun name next => ?_, by simp, fun _ => ⟨rfl, rfl⟩, rfl⟩
    rw [← decodeName_iff, h]
    simp
  | some found =>
    obtain ⟨name, next⟩ := found
    have hexp := decodeName_iff.mp h
    obtain ⟨jumps, hjumps, -⟩ := id hexp
    refine ⟨true, next, name, rfl, fun name' next' => ?_, fun _ => ⟨hexp.validWireName, hjumps.next_bounds⟩,
      by simp, rfl⟩
    rw [← decodeName_iff, h]
    simp [eq_comm]

end Linux95.Net.Dns
