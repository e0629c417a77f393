import Linux95.Memory.Queries

/-! The pointers of user programs: the checks of `memory/user_space.hpp`, and `validate_user_range`. -/

namespace Linux95.Memory
open Machine

inductive UserAccess where
  | read
  | write
  | execute
  deriving DecidableEq

def userRangeArithmeticValid (address length : Word) : Bool :=
  isCanonicalUserAddress address &&
    (length = 0#64 ||
      (address ≤ BitVec.allOnes 64 - length && isCanonicalUserAddress (address + length - 1#64)))

structure UserPageSpan where
  firstPage : Word
  lastPage : Word

def userPageSpan (address length : Word) : UserPageSpan :=
  ⟨address &&& ~~~0xFFF#64,
    if length = 0#64 then address &&& ~~~0xFFF#64 else (address + length - 1#64) &&& ~~~0xFFF#64⟩

def userPageAccessAllowed (page : PageInfo) (access : UserAccess) : Bool :=
  if !page.present || !page.user then false
  else
    match access with
    | .write => page.writable
    | .execute => page.executable
    | .read => true

abbrev PageLookup := Word → Bool × PageInfo

/-- The loop of `validate_user_range_with_lookup`, which ends at the last page and nowhere else; `none` when the turns
run out. -/
def checkPages (lookup : PageLookup) (access : UserAccess) (lastPage : Word) : Nat → Word → Option Bool
  | 0, _ => none
  | turns + 1, page =>
    let (answered, info) := lookup page
    if !answered || !userPageAccessAllowed info access then some false
    else if page = lastPage then some true
    else checkPages lookup access lastPage turns (page + 0x1000#64)

/-- There are no more page addresses: a loop that goes on after so many turns has begun again. -/
def pageAddresses : Nat := 2 ^ 52

def validateUserRangeWithLookup (address length : Word) (access : UserAccess) (lookup : Option PageLookup) :
    Option Bool :=
  match lookup with
  | none => some false
  | some lookup =>
    if !userRangeArithmeticValid address length then some false
    else if length = 0#64 then some true
    else
      let span := userPageSpan address length
      checkPages lookup access span.lastPage pageAddresses span.firstPage

def validateUserRange (memory : PhysicalMemory) (root address length : Word) (access : UserAccess) : Option Bool :=
  validateUserRangeWithLookup address length access (some (queryPage memory root))

section Offsets

def SamePage (va offset : Word) : Prop := va.toNat % pageSize + offset.toNat < pageSize

variable {va offset : Word}

theorem SamePage.toNat_add (h : SamePage va offset) : (va + offset).toNat = va.toNat + offset.toNat := by
  have hlt := va.isLt
  unfold SamePage pageSize at h
  rw [BitVec.toNat_add]
  omega

theorem SamePage.tableIndex_add (h : SamePage va offset) {shift : Nat} (hshift : 12 ≤ shift) :
    tableIndex shift (va + offset) = tableIndex shift va := by
  have hpow : 2 ^ shift = pageSize * 2 ^ (shift - 12) := by
    rw [show pageSize = 2 ^ 12 from rfl, ← Nat.pow_add]
    congr 1
    omega
  have hdiv : (va.toNat + offset.toNat) / pageSize = va.toNat / pageSize := by
    unfold SamePage pageSize at *
    omega
  unfold tableIndex
  congr 2
  rw [BitVec.toNat_ushiftRight, BitVec.toNat_ushiftRight, h.toNat_add, Nat.shiftRight_eq_div_pow,
    Nat.shiftRight_eq_div_pow, hpow, ← Nat.div_div_eq_div_mul, hdiv, Nat.div_div_eq_div_mul]

theorem SamePage.mapped_add (h : SamePage va offset) {entry mask offsetMask : Word} {k : Nat} (hk : 12 ≤ k)
    (hoffset : offsetMask.toNat = 2 ^ k - 1) (hmask : mask &&& offsetMask = 0#64) :
    entry &&& mask ||| (va + offset) &&& offsetMask = (entry &&& mask ||| va &&& offsetMask) + offset := by
  have hdisjoint : ∀ x : Word, entry &&& mask &&& (x &&& offsetMask) = 0#64 := by
    intro x
    calc entry &&& mask &&& (x &&& offsetMask) = entry &&& x &&& (mask &&& offsetMask) := by ac_rfl
      _ = 0#64 := by rw [hmask, BitVec.and_zero]
  have hmod : ∀ x : Word, (x &&& offsetMask).toNat = x.toNat % 2 ^ k := by
    intro x
    rw [BitVec.toNat_and, hoffset, Nat.and_two_pow_sub_one_eq_mod]
  have hlow : (va + offset) &&& offsetMask = (va &&& offsetMask) + offset := by
    have hpow : 2 ^ k = 4096 * 2 ^ (k - 12) := by
      rw [show 4096 = 2 ^ 12 from rfl, ← Nat.pow_add]
      congr 1
      omega
    have hpage : va.toNat % 2 ^ k % 4096 = va.toNat % 4096 := by
      rw [hpow]
      exact Nat.mod_mul_right_mod _ _ _
    have hrest := Nat.mod_lt va.toNat (Nat.two_pow_pos k)
    have hfits : va.toNat % 2 ^ k + offset.toNat < 2 ^ k := by
      unfold SamePage pageSize at h
      generalize va.toNat % 2 ^ k = rest at hpage hrest ⊢
      rw [hpow] at hrest ⊢
      omega
    have hbound := offsetMask.isLt
    apply BitVec.eq_of_toNat_eq
    rw [hmod, h.toNat_add, BitVec.toNat_add, hmod, ← Nat.mod_add_mod, Nat.mod_eq_of_lt hfits]
    exact (Nat.mod_eq_of_lt (by omega)).symm
  rw [← BitVec.add_eq_or_of_and_eq_zero _ _ (hdisjoint _), ← BitVec.add_eq_or_of_and_eq_zero _ _ (hdisjoint _), hlow,
    BitVec.add_assoc]

def PageInfo.ahead (info : PageInfo) (offset : Word) : PageInfo :=
  if info.present then { info with physical := info.physical + offset } else info

variable {memory : PhysicalMemory}

theorem SamePage.queryPt (h : SamePage va offset) (rights : Rights) (pt : Word) :
    queryPt memory (va + offset) rights pt =
      (true, (Memory.queryPt memory va rights pt).2.ahead offset) := by
  unfold Memory.queryPt ptIndex
  rw [h.tableIndex_add (Nat.le_refl 12)]
  dsimp only
  split
  · rfl
  · unfold Rights.info
    rw [h.mapped_add (Nat.le_refl 12) rfl (by decide)]
    rfl

theorem SamePage.queryPd (h : SamePage va offset) (rights : Rights) (pd : Word) :
    queryPd memory (va + offset) rights pd =
      (true, (Memory.queryPd memory va rights pd).2.ahead offset) := by
  unfold Memory.queryPd pdIndex
  rw [h.tableIndex_add (show 12 ≤ 21 by decide)]
  dsimp only
  split
  · rfl
  split
  · unfold Rights.info
    rw [h.mapped_add (show 12 ≤ 21 by decide) rfl (by decide)]
    rfl
  · exact h.queryPt _ _

theorem SamePage.queryPdpt (h : SamePage va offset) (rights : Rights) (pdpt : Word) :
    queryPdpt memory (va + offset) rights pdpt =
      (true, (Memory.queryPdpt memory va rights pdpt).2.ahead offset) := by
  unfold Memory.queryPdpt pdptIndex
  rw [h.tableIndex_add (show 12 ≤ 30 by decide)]
  dsimp only
  split
  · rfl
  split
  · unfold Rights.info
    rw [h.mapped_add (show 12 ≤ 30 by decide) rfl (by decide)]
    rfl
  · exact h.queryPd _ _

theorem SamePage.queryPage (h : SamePage va offset) (root : Word) : queryPage memory root (va + offset) =
    ((Memory.queryPage memory root va).1, (Memory.queryPage memory root va).2.ahead offset) := by
  -- within a page the answer changes only in the byte it points to
  rw [queryPage_levels, queryPage_levels]
  split
  · rfl
  unfold queryPml4 pml4Index
  rw [h.tableIndex_add (show 12 ≤ 39 by decide)]
  dsimp only
  split
  · rfl
  · rw [h.queryPdpt]
    have hanswered : ∀ rights pdpt, (Memory.queryPdpt memory va rights pdpt).1 = true := by
      intro rights pdpt
      unfold Memory.queryPdpt Memory.queryPd Memory.queryPt
      dsimp only
      split_ifs <;> rfl
    rw [hanswered]

theorem queryPage_answered {root va : Word} (h : (Memory.queryPage memory root va).2.present = true) :
    (Memory.queryPage memory root va).1 = true := by
  revert h
  unfold Memory.queryPage
  dsimp only
  split_ifs
  all_goals
    intro h
    first | rfl | cases h

end Offsets

section Ranges

structure PageInfo.Allows (info : PageInfo) (access : UserAccess) : Prop where
  present : info.present = true
  user : info.user = true
  writable : access = .write → info.writable = true
  executable : access = .execute → info.executable = true

theorem userPageAccessAllowed_iff {info : PageInfo} {access : UserAccess} :
    userPageAccessAllowed info access = true ↔ info.Allows access := by
  obtain ⟨present, user, writable, executable, physical⟩ := info
  constructor
  · intro h
    unfold userPageAccessAllowed at h
    split at h
    · cases h
    · rename_i hpage
      simp only [Bool.or_eq_true, Bool.not_eq_true', not_or, Bool.not_eq_false] at hpage
      refine ⟨hpage.1, hpage.2, ?_, ?_⟩
      · rintro rfl
        exact h
      · rintro rfl
        exact h
  · intro h
    unfold userPageAccessAllowed
    rw [h.present, h.user]
    cases access with
    | read => rfl
    | write => exact h.writable rfl
    | execute => exact h.executable rfl

theorem PageInfo.ahead_allows {info : PageInfo} {offset : Word} {access : UserAccess} :
    (info.ahead offset).Allows access ↔ info.Allows access := by
  unfold PageInfo.ahead
  split
  · exact ⟨fun h => ⟨h.present, h.user, h.writable, h.executable⟩, fun h => ⟨h.present, h.user, h.writable, h.executable⟩⟩
  · exact Iff.rfl

theorem toNat_pageOf (va : Word) : (va &&& ~~~0xFFF#64).toNat = va.toNat / pageSize * pageSize := by
  have hoffset : (va &&& 0xFFF#64).toNat = va.toNat % 4096 := by
    rw [BitVec.toNat_and]
    exact Nat.and_two_pow_sub_one_eq_mod va.toNat 12
  have hdisjoint : va &&& ~~~0xFFF#64 &&& (va &&& 0xFFF#64) = 0#64 := by
    calc va &&& ~~~0xFFF#64 &&& (va &&& 0xFFF#64) = va &&& va &&& (~~~0xFFF#64 &&& 0xFFF#64) := by ac_rfl
      _ = 0#64 := by rw [show ~~~0xFFF#64 &&& 0xFFF#64 = 0#64 by decide, BitVec.and_zero]
  have hwhole : (va &&& ~~~0xFFF#64) + (va &&& 0xFFF#64) = va := by
    rw [BitVec.add_eq_or_of_and_eq_zero _ _ hdisjoint, ← BitVec.and_or_distrib_left,
      show ~~~0xFFF#64 ||| 0xFFF#64 = BitVec.allOnes 64 by decide, BitVec.and_allOnes]
  have hsum := congrArg BitVec.toNat hwhole
  have hlt := (va &&& ~~~0xFFF#64).isLt
  have hle : (va &&& ~~~0xFFF#64).toNat ≤ va.toNat := by
    rw [BitVec.toNat_and]
    exact Nat.and_le_left
  rw [BitVec.toNat_add, hoffset] at hsum
  unfold pageSize
  omega

theorem userRangeArithmeticValid_iff {address length : Word} : userRangeArithmeticValid address length = true ↔
    address.toNat < 2 ^ 47 ∧ address.toNat + length.toNat ≤ 2 ^ 47 := by
  have hlt := length.isLt
  unfold userRangeArithmeticValid isCanonicalUserAddress
  simp only [Bool.and_eq_true, Bool.or_eq_true, decide_eq_true_eq]
  rw [show (length = 0#64) ↔ length.toNat = 0 from ⟨fun h => by rw [h]; rfl, fun h => BitVec.eq_of_toNat_eq h⟩]
  rw [BitVec.le_def, BitVec.toNat_sub, BitVec.toNat_sub, BitVec.toNat_add, BitVec.toNat_allOnes]
  change address.toNat < 2 ^ 47 ∧ _ ↔ _
  rw [show (1#64).toNat = 1 from rfl]
  omega

variable {lookup : PageLookup} {access : UserAccess} {page lastPage : Word}

def Passes (lookup : PageLookup) (access : UserAccess) (page : Word) : Prop :=
  (lookup page).1 = true ∧ (lookup page).2.Allows access

theorem checkPages_passes (h : Passes lookup access page) (turns : Nat) :
    checkPages lookup access lastPage (turns + 1) page =
      if page = lastPage then some true else checkPages lookup access lastPage turns (page + 0x1000#64) := by
  rw [checkPages]
  dsimp only
  rw [h.1, userPageAccessAllowed_iff.mpr h.2]
  rfl

theorem checkPages_stops (h : ¬Passes lookup access page) (turns : Nat) :
    checkPages lookup access lastPage (turns + 1) page = some false := by
  rw [checkPages]
  dsimp only
  rw [if_pos]
  rw [Bool.or_eq_true, Bool.not_eq_true', Bool.not_eq_true', ← Bool.not_eq_true, ← Bool.not_eq_true,
    userPageAccessAllowed_iff]
  exact not_and_or.mp h

theorem checkPages_eq {n turns : Nat} (hlast : lastPage.toNat = page.toNat + n * pageSize) (hturns : n < turns) :
    ∃ answer, checkPages lookup access lastPage turns page = some answer ∧
      (answer = true ↔ ∀ k ≤ n, Passes lookup access (page + BitVec.ofNat 64 (k * pageSize))) := by
  -- the loop ends at the last page, and has then seen all
  have hfirst : ∀ page : Word, page + BitVec.ofNat 64 (0 * pageSize) = page := by
    intro page
    rw [Nat.zero_mul]
    exact BitVec.add_zero page
  induction n generalizing page turns with
  | zero =>
    obtain ⟨turns, rfl⟩ := Nat.exists_eq_succ_of_ne_zero (Nat.ne_of_gt hturns)
    have hpage : page = lastPage := BitVec.eq_of_toNat_eq (by omega)
    by_cases hpass : Passes lookup access page
    · rw [checkPages_passes hpass, if_pos hpage]
      refine ⟨true, rfl, fun _ k hk => ?_, fun _ => rfl⟩
      rw [Nat.le_zero.mp hk, hfirst]
      exact hpass
    · rw [checkPages_stops hpass]
      refine ⟨false, rfl, fun h => absurd h Bool.false_ne_true, fun h => absurd ?_ hpass⟩
      have hzero := h 0 (Nat.le_refl 0)
      rwa [hfirst] at hzero
  | succ n ih =>
    obtain ⟨turns, rfl⟩ := Nat.exists_eq_succ_of_ne_zero (Nat.ne_of_gt (Nat.zero_lt_of_lt hturns))
    have hlt := lastPage.isLt
    by_cases hpass : Passes lookup access page
    · have hne : page ≠ lastPage := by
        rintro rfl
        unfold pageSize at hlast
        omega
      have hnext : (page + 0x1000#64).toNat = page.toNat + pageSize := by
        unfold pageSize at *
        rw [BitVec.toNat_add, show (0x1000#64).toNat = 4096 from rfl]
        omega
      rw [checkPages_passes hpass, if_neg hne]
      obtain ⟨answer, heq, hanswer⟩ := @ih (page + 0x1000#64) turns
        (by rw [hnext, hlast, Nat.succ_mul]; omega) (by omega)
      have hmore : ∀ k, page + 0x1000#64 + BitVec.ofNat 64 (k * pageSize) =
          page + BitVec.ofNat 64 ((k + 1) * pageSize) := by
        intro k
        rw [BitVec.add_assoc, Nat.succ_mul, Nat.add_comm (k * pageSize), BitVec.ofNat_add]
        rfl
      simp only [hmore] at hanswer
      refine ⟨answer, heq, hanswer.trans ⟨fun h k hk => ?_, fun h k hk => h (k + 1) (by omega)⟩⟩
      cases k with
      | zero =>
        rw [hfirst]
        exact hpass
      | succ k => exact h k (by omega)
    · rw [checkPages_stops hpass]
      refine ⟨false, rfl, fun h => absurd h Bool.false_ne_true, fun h => absurd ?_ hpass⟩
      have hzero := h 0 (Nat.zero_le _)
      rwa [hfirst] at hzero

variable {memory : PhysicalMemory} {root : Word}

def Accessible (memory : PhysicalMemory) (root : Word) (access : UserAccess) (address : Nat) : Prop :=
  address < 2 ^ 47 ∧ (queryPage memory root (BitVec.ofNat 64 address)).2.Allows access

theorem accessible_page {address : Nat} {page : Word} (hlow : address < 2 ^ 47)
    (hpage : page.toNat = address / pageSize * pageSize) :
    Accessible memory root access address ↔ Passes (queryPage memory root) access page := by
  have hoffset : (BitVec.ofNat 64 (address % pageSize)).toNat = address % pageSize := by
    rw [BitVec.toNat_ofNat]
    unfold pageSize
    omega
  have hsame : SamePage page (BitVec.ofNat 64 (address % pageSize)) := by
    unfold SamePage
    rw [hoffset, hpage, Nat.mul_mod_left, Nat.zero_add]
    exact Nat.mod_lt _ (by decide)
  have haddress : page + BitVec.ofNat 64 (address % pageSize) = BitVec.ofNat 64 address := by
    apply BitVec.eq_of_toNat_eq
    rw [hsame.toNat_add, hoffset, hpage, BitVec.toNat_ofNat]
    unfold pageSize
    omega
  have hquery := @SamePage.queryPage _ _ memory hsame root
  unfold Accessible Passes
  rw [← haddress, hquery, PageInfo.ahead_allows]
  exact ⟨fun h => ⟨queryPage_answered h.2.present, h.2⟩, fun h => ⟨hlow, h.2⟩⟩

/-- The check ends, and finds out whether the program may use all bytes of the range so. -/
theorem validateUserRange_eq (memory : PhysicalMemory) (root address length : Word) (access : UserAccess) :
    ∃ answer, validateUserRange memory root address length access = some answer ∧
      (answer = true ↔ address.toNat < 2 ^ 47 ∧
        ∀ a, address.toNat ≤ a → a < address.toNat + length.toNat → Accessible memory root access a) := by
  unfold validateUserRange validateUserRangeWithLookup
  dsimp only
  by_cases hvalid : userRangeArithmeticValid address length = true
  · rw [hvalid, Bool.not_true, if_neg Bool.false_ne_true]
    obtain ⟨hlow, hhigh⟩ := userRangeArithmeticValid_iff.mp hvalid
    by_cases hempty : length = 0#64
    · rw [if_pos hempty]
      refine ⟨true, rfl, fun _ => ⟨hlow, fun a hfirst hlast => ?_⟩, fun _ => rfl⟩
      rw [hempty] at hlast
      exact absurd hlast (Nat.not_lt.mpr hfirst)
    have hpositive : 0 < length.toNat := Nat.pos_of_ne_zero fun h => hempty (BitVec.eq_of_toNat_eq h)
    have hend : (address + length - 1#64).toNat = address.toNat + length.toNat - 1 := by
      rw [BitVec.toNat_sub, BitVec.toNat_add, show (1#64).toNat = 1 from rfl]
      omega
    have hfirst := toNat_pageOf address
    have hlast := toNat_pageOf (address + length - 1#64)
    rw [hend] at hlast
    unfold userPageSpan
    rw [if_neg hempty, if_neg hempty]
    dsimp only
    generalize hcount : (address.toNat + length.toNat - 1) / pageSize - address.toNat / pageSize = n
    obtain ⟨answer, heq, hanswer⟩ := @checkPages_eq (queryPage memory root) access (address &&& ~~~0xFFF#64)
      ((address + length - 1#64) &&& ~~~0xFFF#64) n pageAddresses
      (by rw [hlast, hfirst]; unfold pageSize at *; omega) (by unfold pageAddresses pageSize at *; omega)
    refine ⟨answer, heq, hanswer.trans ⟨fun h => ⟨hlow, fun a hfrom hto => ?_⟩, fun h k hk => ?_⟩⟩
    · refine (accessible_page (by omega) ?_).mpr (h (a / pageSize - address.toNat / pageSize) ?_)
      · rw [BitVec.toNat_add, hfirst, BitVec.toNat_ofNat]
        unfold pageSize at *
        omega
      · unfold pageSize at *
        omega
    · -- of the bytes of the page, the first that lies in the range
      have hpage : ((address &&& ~~~0xFFF#64) + BitVec.ofNat 64 (k * pageSize)).toNat =
          max address.toNat ((address.toNat / pageSize + k) * pageSize) / pageSize * pageSize := by
        rw [BitVec.toNat_add, hfirst, BitVec.toNat_ofNat]
        unfold pageSize at *
        omega
      have hinside := h.2 (max address.toNat ((address.toNat / pageSize + k) * pageSize)) (Nat.le_max_left _ _)
        (by unfold pageSize at *; omega)
      exact (accessible_page hinside.1 hpage).mp hinside
  · rw [Bool.not_eq_true] at hvalid
    rw [hvalid, Bool.not_false, if_pos rfl]
    refine ⟨false, rfl, fun h => absurd h Bool.false_ne_true, fun ⟨hlow, hall⟩ => absurd ?_ (Bool.eq_false_iff.mp hvalid)⟩
    rw [userRangeArithmeticValid_iff]
    refine ⟨hlow, ?_⟩
    by_cases hempty : length.toNat = 0
    · omega
    · have hend := (hall (address.toNat + length.toNat - 1) (by omega) (by omega)).1
      omega

end Ranges

end Linux95.Memory
