import Linux95.Memory.UserPointers
import Linux95.User.ElfLoads

/-! `copy_from_user` of `memory/user_space.cpp`. -/

namespace Linux95.Syscall
open Memory User

def copyChunk (memory : PhysicalMemory) (source : Word) (copied chunk : Nat) (buffer : Nat → UInt8) : Nat → UInt8 :=
  (List.range chunk).foldl (fun buffer i =>
    Function.update buffer (copied + i) (physicalByte memory (source + BitVec.ofNat 64 i))) buffer

/-- The loop of `copy_from_user`; `none` when the turns run out. -/
def copyPages (memory : PhysicalMemory) (root : Word) :
    Nat → Nat → Word → Word → (Nat → UInt8) → Option (Bool × (Nat → UInt8))
  | 0, _, _, _, _ => none
  | turns + 1, copied, source, remaining, buffer =>
    if remaining = 0#64 then some (true, buffer)
    else
      let (answered, info) := queryPage memory root source
      if !answered then some (false, buffer)
      else
        let offset := source &&& 0xFFF#64
        let chunk := if remaining < 0x1000#64 - offset then remaining else 0x1000#64 - offset
        copyPages memory root turns (copied + chunk.toNat) (source + chunk) (remaining - chunk)
          (copyChunk memory info.physical copied chunk.toNat buffer)

/-- `copy_from_user` into a buffer of the kernel. A turn of the loop copies a byte at least. -/
def copyFromUser (memory : PhysicalMemory) (root source length : Word) (buffer : Nat → UInt8) :
    Option (Bool × (Nat → UInt8)) :=
  match validateUserRange memory root source length .read with
  | none => none
  | some valid =>
    if !valid then some (false, buffer) else copyPages memory root (length.toNat + 1) 0 source length buffer

def userByte (memory : PhysicalMemory) (root va : Word) : UInt8 :=
  physicalByte memory (queryPage memory root va).2.physical

variable {memory : PhysicalMemory} {root source : Word} {buffer : Nat → UInt8}

theorem copyChunk_eq (copied chunk j : Nat) : copyChunk memory source copied chunk buffer j =
    if copied ≤ j ∧ j < copied + chunk then physicalByte memory (source + BitVec.ofNat 64 (j - copied))
    else buffer j := by
  unfold copyChunk
  induction chunk with
  | zero =>
    rw [if_neg (by omega)]
    rfl
  | succ chunk ih =>
    rw [List.range_succ, List.foldl_append, List.foldl_cons, List.foldl_nil]
    by_cases hj : j = copied + chunk
    · rw [hj, Function.update_self, if_pos (by omega), Nat.add_sub_cancel_left]
    · rw [Function.update_of_ne hj, ih]
      by_cases hin : copied ≤ j ∧ j < copied + chunk
      · rw [if_pos hin, if_pos (by omega)]
      · rw [if_neg hin, if_neg (by omega)]

theorem userByte_add {offset : Word} (h : SamePage source offset)
    (hpresent : (queryPage memory root source).2.present = true) :
    userByte memory root (source + offset) = physicalByte memory ((queryPage memory root source).2.physical + offset) := by
  -- within a page the bytes lie side by side
  unfold userByte
  rw [h.queryPage]
  unfold PageInfo.ahead
  dsimp only
  rw [if_pos hpresent]

theorem copyPages_eq {turns copied : Nat} {remaining : Word} (hend : source.toNat + remaining.toNat ≤ 2 ^ 47)
    (hpresent : ∀ a, source.toNat ≤ a → a < source.toNat + remaining.toNat →
      (queryPage memory root (BitVec.ofNat 64 a)).2.present = true) (hturns : remaining.toNat < turns) :
    ∃ buffer', copyPages memory root turns copied source remaining buffer = some (true, buffer') ∧
      ∀ j, buffer' j = if copied ≤ j ∧ j < copied + remaining.toNat
        then userByte memory root (source + BitVec.ofNat 64 (j - copied)) else buffer j := by
  induction turns generalizing copied source remaining buffer with
  | zero => omega
  | succ turns ih =>
    rw [copyPages]
    by_cases hdone : remaining = 0#64
    · rw [if_pos hdone, hdone]
      refine ⟨buffer, rfl, fun j => ?_⟩
      rw [show (0#64).toNat = 0 from rfl, if_neg (by omega)]
    have hpositive : 0 < remaining.toNat := Nat.pos_of_ne_zero fun h => hdone (BitVec.eq_of_toNat_eq h)
    have hself := hpresent source.toNat (Nat.le_refl _) (by omega)
    rw [BitVec.ofNat_toNat, BitVec.setWidth_eq] at hself
    have hoffset : (source &&& 0xFFF#64).toNat = source.toNat % 4096 := by
      rw [BitVec.toNat_and]
      exact Nat.and_two_pow_sub_one_eq_mod source.toNat 12
    generalize hchunk : (if remaining < 0x1000#64 - (source &&& 0xFFF#64) then remaining
      else 0x1000#64 - (source &&& 0xFFF#64)) = chunk
    have hroom : (0x1000#64 - (source &&& 0xFFF#64)).toNat = 4096 - source.toNat % 4096 := by
      rw [BitVec.toNat_sub, hoffset, show (0x1000#64).toNat = 4096 from rfl]
      omega
    have hcount : chunk.toNat = min remaining.toNat (4096 - source.toNat % 4096) := by
      rw [← hchunk, ← hroom]
      split
      · rename_i hlt
        exact (Nat.min_eq_left (Nat.le_of_lt hlt)).symm
      · rename_i hge
        exact (Nat.min_eq_right (Nat.not_lt.mp hge)).symm
    have hsource : (source + chunk).toNat = source.toNat + chunk.toNat := by
      rw [BitVec.toNat_add]
      omega
    have hremaining : (remaining - chunk).toNat = remaining.toNat - chunk.toNat := by
      rw [BitVec.toNat_sub]
      omega
    rw [if_neg hdone]
    dsimp only
    rw [queryPage_answered hself, Bool.not_true, if_neg Bool.false_ne_true, hchunk]
    obtain ⟨buffer', heq, hbytes⟩ := @ih (source + chunk)
      (copyChunk memory (queryPage memory root source).2.physical copied chunk.toNat buffer)
      (copied + chunk.toNat) (remaining - chunk)
      (by rw [hsource, hremaining]; omega)
      (fun a hfrom hto => hpresent a (by omega) (by omega)) (by omega)
    refine ⟨buffer', heq, fun j => ?_⟩
    rw [hbytes j, hremaining, copyChunk_eq]
    by_cases hlater : copied + chunk.toNat ≤ j ∧ j < copied + chunk.toNat + (remaining.toNat - chunk.toNat)
    · have haddress : source + chunk + BitVec.ofNat 64 (j - (copied + chunk.toNat)) =
          source + BitVec.ofNat 64 (j - copied) := by
        apply BitVec.eq_of_toNat_eq
        rw [BitVec.toNat_add, hsource, BitVec.toNat_add, BitVec.toNat_ofNat, BitVec.toNat_ofNat]
        omega
      rw [if_pos hlater, if_pos (by omega), haddress]
    rw [if_neg hlater]
    by_cases hnow : copied ≤ j ∧ j < copied + chunk.toNat
    · have hsmall : (BitVec.ofNat 64 (j - copied)).toNat = j - copied := by
        rw [BitVec.toNat_ofNat]
        omega
      rw [if_pos hnow, if_pos (by omega), userByte_add _ hself]
      unfold SamePage pageSize
      rw [hsmall]
      omega
    · rw [if_neg hnow, if_neg (by omega)]

theorem copyFromUser_eq {length : Word} (hvalid : validateUserRange memory root source length .read = some true) :
    ∃ buffer', copyFromUser memory root source length buffer = some (true, buffer') ∧
      ∀ j, buffer' j = if j < length.toNat then userByte memory root (source + BitVec.ofNat 64 j) else buffer j := by
  obtain ⟨answer, heq, hanswer⟩ := validateUserRange_eq memory root source length .read
  rw [hvalid] at heq
  obtain ⟨hlow, haccessible⟩ := hanswer.mp (Option.some.inj heq).symm
  have hend : source.toNat + length.toNat ≤ 2 ^ 47 := by
    by_cases hempty : length.toNat = 0
    · omega
    · have hlast := (haccessible (source.toNat + length.toNat - 1) (by omega) (by omega)).1
      omega
  obtain ⟨buffer', hcopied, hbytes⟩ := @copyPages_eq memory root source buffer (length.toNat + 1) 0 length hend
    (fun a hfrom hto => (haccessible a hfrom hto).2.present) (Nat.lt_succ_self _)
  refine ⟨buffer', ?_, fun j => ?_⟩
  · unfold copyFromUser
    rw [hvalid]
    exact hcopied
  · rw [hbytes j, Nat.zero_add, Nat.sub_zero]
    simp

end Linux95.Syscall
