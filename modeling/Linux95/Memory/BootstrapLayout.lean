import Linux95.Memory.Bootstrap
import Mathlib.Data.List.Basic

/-! What `prepare_bootstrap` builds, table by table. -/

namespace Linux95.Memory.Bootstrap
open Base LinkedTables
open User (hhdmBase)

theorem store_eq {A I W : Type} [DecidableEq A] [DecidableEq I] (memory : A → I → W) (a : A) (i : I) (w : W) (b : A)
    (j : I) : store memory a i w b j = if b = a ∧ j = i then w else memory b j := by
  split
  · rename_i h
    rw [h.1, h.2, store_self]
  · rename_i h
    exact store_of_ne fun hb hj => h ⟨hb, hj⟩

theorem blank_eq {A I : Type} [DecidableEq A] (memory : A → I → Word) (a b : A) (j : I) :
    Function.update memory a (fun _ => 0#64) b j = if b = a then 0#64 else memory b j := by
  split
  · rename_i h
    rw [h, Function.update_self]
  · rw [Function.update_of_ne ‹_›]

section Maps
variable {pool : Pool} {b : Bootstrap} {n k m : Nat} {contents : Nat → Index → Word} {virtual physical : Word}

theorem Holds.map_entry (h : Holds pool b n contents) (hv : virtual &&& 0x1FFFFF#64 = 0#64)
    (hp : physical &&& 0x1FFFFF#64 = 0#64) (hn : 0 < n) (hm : m < n) (hk : k < n)
    (hroot : contents 0 (pml4Index virtual) = childEntry pool m)
    (hpdpt : contents m (pdptIndex virtual) = childEntry pool k) (hpd : contents k (pdIndex virtual) = 0#64) : ∃ b',
    b.mapHuge2m pool (poolPage pool 0) virtual physical = (true, b') ∧
    Holds pool b' n (store contents k (pdIndex virtual)
      (physical &&& twoMiBAddressMask ||| pagePresent ||| pageWritable ||| pageHuge)) := by
  have hfits := h.fits
  unfold mapHuge2m
  rw [if_neg (by rw [hv, hp]; decide), h.child_present hn (by omega) hroot]
  dsimp only
  rw [if_neg (poolPage_ne_zero pool (by omega)), h.child_present hm (by omega) hpdpt]
  dsimp only
  rw [if_neg (poolPage_ne_zero pool (by omega))]
  exact h.leaf hk hpd

theorem Holds.map_table (h : Holds pool b n contents) (hv : virtual &&& 0x1FFFFF#64 = 0#64)
    (hp : physical &&& 0x1FFFFF#64 = 0#64) (hn : 0 < n) (hm : m < n) (hroom : n < poolPages)
    (hroot : contents 0 (pml4Index virtual) = childEntry pool m)
    (hpdpt : contents m (pdptIndex virtual) = 0#64) : ∃ b',
    b.mapHuge2m pool (poolPage pool 0) virtual physical = (true, b') ∧
    Holds pool b' (n + 1)
      (store (store (Function.update contents n fun _ => 0#64) m (pdptIndex virtual) (childEntry pool n))
        n (pdIndex virtual) (physical &&& twoMiBAddressMask ||| pagePresent ||| pageWritable ||| pageHuge)) := by
  unfold mapHuge2m
  rw [if_neg (by rw [hv, hp]; decide), h.child_present hn (by omega) hroot]
  dsimp only
  obtain ⟨b', heq, hb'⟩ := h.child_absent hm hroom hpdpt
  rw [if_neg (poolPage_ne_zero pool (by omega)), heq]
  dsimp only
  rw [if_neg (poolPage_ne_zero pool hroom)]
  refine hb'.leaf (Nat.lt_succ_self n) ?_
  rw [store_eq, if_neg (by omega), Function.update_self]

theorem Holds.map_tables (h : Holds pool b n contents) (hv : virtual &&& 0x1FFFFF#64 = 0#64)
    (hp : physical &&& 0x1FFFFF#64 = 0#64) (hn : 0 < n) (hroom : n + 1 < poolPages)
    (hroot : contents 0 (pml4Index virtual) = 0#64) : ∃ b',
    b.mapHuge2m pool (poolPage pool 0) virtual physical = (true, b') ∧
    Holds pool b' (n + 2)
      (store (store (Function.update (store (Function.update contents n fun _ => 0#64) 0 (pml4Index virtual)
        (childEntry pool n)) (n + 1) fun _ => 0#64) n (pdptIndex virtual) (childEntry pool (n + 1)))
        (n + 1) (pdIndex virtual) (physical &&& twoMiBAddressMask ||| pagePresent ||| pageWritable ||| pageHuge)) := by
  unfold mapHuge2m
  obtain ⟨b₁, heq₁, h₁⟩ := h.child_absent hn (by omega) hroot
  rw [if_neg (by rw [hv, hp]; decide), heq₁]
  dsimp only
  obtain ⟨b₂, heq₂, h₂⟩ := @Holds.child_absent pool b₁ (n + 1) n _ (pdptIndex virtual) h₁ (Nat.lt_succ_self n) hroom
    (by rw [store_eq, if_neg (by omega), Function.update_self])
  rw [if_neg (poolPage_ne_zero pool (by omega)), heq₂]
  dsimp only
  rw [if_neg (poolPage_ne_zero pool hroom)]
  refine h₂.leaf (Nat.lt_succ_self (n + 1)) ?_
  rw [store_eq, if_neg (by omega), Function.update_self]

end Maps

section Layout
variable {pool : Pool} {b : Bootstrap} {j : Nat}

/-- The tables when the first `j` huge pages of the direct map are in place: the root, two tables for the identity
map, two for the kernel region, one that links the page directories of the direct map, and these. -/
def layout (pool : Pool) (j : Nat) : Nat → Index → Word
  | 0, i =>
    if i.val = 0 then childEntry pool 1
    else if i.val = 511 then childEntry pool 3
    else if i.val = 256 ∧ 0 < j then childEntry pool 5
    else 0#64
  | 1, i => if i.val = 0 then childEntry pool 2 else 0#64
  | 2, i => if i.val = 0 then hugeEntry 0 else 0#64
  | 3, i => if i.val = 510 then childEntry pool 4 else 0#64
  | 4, i => if i.val = 0 then hugeEntry 0 else 0#64
  | 5, i => if i.val < (j + 511) / 512 then childEntry pool (6 + i.val) else 0#64
  | g + 6, i => if 512 * g + i.val < j then hugeEntry (512 * g + i.val) else 0#64

section Entries
variable (pool : Pool) (j : Nat) (i : Index)

theorem layout_root : layout pool j 0 i = if i.val = 0 then childEntry pool 1
    else if i.val = 511 then childEntry pool 3
    else if i.val = 256 ∧ 0 < j then childEntry pool 5
    else 0#64 := rfl

theorem layout_links : layout pool j 5 i = if i.val < (j + 511) / 512 then childEntry pool (6 + i.val) else 0#64 := rfl

theorem layout_directory (g : Nat) :
    layout pool j (6 + g) i = if 512 * g + i.val < j then hugeEntry (512 * g + i.val) else 0#64 := by
  rw [Nat.add_comm]
  rfl

end Entries

def tableCount (j : Nat) : Nat := if j = 0 then 5 else 6 + (j + 511) / 512

theorem direct_index (hj : j < 32768) :
    (pml4Index (hhdmBase + BitVec.ofNat 64 (j * hugePageSize))).val = 256 ∧
    (pdptIndex (hhdmBase + BitVec.ofNat 64 (j * hugePageSize))).val = j / 512 ∧
    (pdIndex (hhdmBase + BitVec.ofNat 64 (j * hugePageSize))).val = j % 512 := by
  have htoNat : (hhdmBase + BitVec.ofNat 64 (j * hugePageSize)).toNat = 0xFFFF800000000000 + j * 0x200000 := by
    rw [BitVec.toNat_add, BitVec.toNat_ofNat, show hhdmBase.toNat = 0xFFFF800000000000 from rfl]
    unfold hugePageSize
    omega
  unfold pml4Index pdptIndex pdIndex
  rw [tableIndex_val, tableIndex_val, tableIndex_val, htoNat]
  omega

theorem huge_aligned {q : Nat} : BitVec.ofNat 64 (q * hugePageSize) &&& 0x1FFFFF#64 = 0#64 := by
  apply BitVec.eq_of_toNat_eq
  have hlow : (BitVec.ofNat 64 (q * hugePageSize) &&& 0x1FFFFF#64).toNat = q * hugePageSize % 2 ^ 64 % 2 ^ 21 := by
    rw [BitVec.toNat_and, BitVec.toNat_ofNat]
    exact Nat.and_two_pow_sub_one_eq_mod _ 21
  rw [hlow]
  unfold hugePageSize
  change _ = 0
  omega

theorem direct_aligned (j : Nat) :
    (hhdmBase + BitVec.ofNat 64 (j * hugePageSize)) &&& 0x1FFFFF#64 = 0#64 := by
  have hsum : hhdmBase + BitVec.ofNat 64 (j * hugePageSize) =
      BitVec.ofNat 64 ((0xFFFF800000000000 / hugePageSize + j) * hugePageSize) := by
    rw [Nat.add_mul, BitVec.ofNat_add]
    rfl
  rw [hsum]
  exact huge_aligned

theorem table_number (k : Nat) : k = 0 ∨ k = 1 ∨ k = 2 ∨ k = 3 ∨ k = 4 ∨ k = 5 ∨ ∃ g, k = g + 6 := by
  obtain hlow | hhigh : k < 6 ∨ 6 ≤ k := Nat.lt_or_ge k 6
  · omega
  · exact Or.inr (Or.inr (Or.inr (Or.inr (Or.inr (Or.inr ⟨k - 6, by omega⟩)))))

theorem Holds.direct (h : Holds pool b (tableCount j) (layout pool j)) (hj : j < 32768) : ∃ b',
    b.mapHuge2m pool (poolPage pool 0) (hhdmBase + BitVec.ofNat 64 (j * hugePageSize))
      (BitVec.ofNat 64 (j * hugePageSize)) = (true, b') ∧
    Holds pool b' (tableCount (j + 1)) (layout pool (j + 1)) := by
  -- one more huge page of the direct map: it may be the first of all, the first of its directory, or neither
  obtain ⟨hpml4, hpdpt, hpd⟩ := direct_index hj
  generalize hva : hhdmBase + BitVec.ofNat 64 (j * hugePageSize) = va at hpml4 hpdpt hpd ⊢
  have hv : va &&& 0x1FFFFF#64 = 0#64 := hva ▸ direct_aligned j
  have hindex : ∀ i i' : Index, i = i' ↔ i.val = i'.val := fun i i' => Fin.ext_iff
  -- the first page of all brings its table and its directory, the first of a directory the directory
  by_cases hfirst : j = 0
  · subst hfirst
    obtain ⟨b', heq, hb'⟩ := h.map_tables hv huge_aligned (by decide) (by decide)
      (by unfold layout; simp [hpml4])
    refine ⟨b', heq, hb'.congr fun k hk => ?_⟩
    change k < 7 at hk
    funext i
    rw [show BitVec.ofNat 64 (0 * hugePageSize) &&& twoMiBAddressMask ||| pagePresent ||| pageWritable ||| pageHuge =
      hugeEntry 0 from rfl, store_eq, store_eq, blank_eq, store_eq, blank_eq]
    simp only [hindex, hpml4, hpdpt, hpd]
    obtain rfl | rfl | rfl | rfl | rfl | rfl | rfl :
      k = 0 ∨ k = 1 ∨ k = 2 ∨ k = 3 ∨ k = 4 ∨ k = 5 ∨ k = 6 := by omega
    all_goals
      unfold layout tableCount
      grind
  have hentry : BitVec.ofNat 64 (j * hugePageSize) &&& twoMiBAddressMask ||| pagePresent ||| pageWritable |||
    pageHuge = hugeEntry j := rfl
  have hcount : tableCount j = 6 + (j + 511) / 512 := if_neg hfirst
  have hcount' : tableCount (j + 1) = 6 + (j + 1 + 511) / 512 := if_neg (Nat.succ_ne_zero j)
  rw [hcount] at h
  rw [hcount']
  have hroot : layout pool j 0 (pml4Index va) = childEntry pool 5 := by
    rw [layout_root, hpml4, if_neg (by decide), if_neg (by decide), if_pos ⟨rfl, Nat.pos_of_ne_zero hfirst⟩]
  by_cases hnew : j % 512 = 0
  · have hmissing : layout pool j 5 (pdptIndex va) = 0#64 := by
      rw [layout_links, hpdpt]
      exact if_neg (by omega)
    obtain ⟨b', heq, hb'⟩ := h.map_table hv huge_aligned (by omega) (by omega) (by unfold poolPages; omega) hroot hmissing
    refine ⟨b', heq, ?_⟩
    rw [show 6 + (j + 1 + 511) / 512 = 6 + (j + 511) / 512 + 1 by omega]
    refine hb'.congr fun k hk => ?_
    funext i
    rw [hentry, store_eq, store_eq, blank_eq]
    simp only [hindex, hpdpt, hpd]
    obtain rfl | rfl | rfl | rfl | rfl | rfl | ⟨g, rfl⟩ := table_number k
    all_goals
      unfold layout
      grind
  · have hpresent : layout pool j 5 (pdptIndex va) = childEntry pool (6 + j / 512) := by
      rw [layout_links, hpdpt]
      exact if_pos (by omega)
    have hmissing : layout pool j (6 + j / 512) (pdIndex va) = 0#64 := by
      rw [layout_directory, hpd]
      exact if_neg (by omega)
    obtain ⟨b', heq, hb'⟩ := h.map_entry hv huge_aligned (by omega) (by omega) (by omega) hroot hpresent hmissing
    refine ⟨b', heq, ?_⟩
    rw [show 6 + (j + 1 + 511) / 512 = 6 + (j + 511) / 512 by omega]
    refine hb'.congr fun k hk => ?_
    funext i
    rw [hentry, store_eq]
    simp only [hindex, hpd]
    obtain rfl | rfl | rfl | rfl | rfl | rfl | ⟨g, rfl⟩ := table_number k
    all_goals
      unfold layout
      grind

theorem Holds.mapDirect (h : Holds pool b (tableCount j) (layout pool j)) {left : Nat} (hleft : j + left ≤ 32768) : ∃ b',
    mapDirect pool (poolPage pool 0) ((j + left) * hugePageSize) (j * hugePageSize) b = (true, b') ∧
    Holds pool b' (tableCount (j + left)) (layout pool (j + left)) := by
  induction left generalizing b j with
  | zero =>
    rw [Nat.add_zero, Bootstrap.mapDirect, if_neg (Nat.lt_irrefl _)]
    exact ⟨b, rfl, h⟩
  | succ left ih =>
    obtain ⟨b', heq, hb'⟩ := h.direct (by omega)
    have hmore : j * hugePageSize < (j + (left + 1)) * hugePageSize := by
      unfold hugePageSize
      omega
    rw [Bootstrap.mapDirect, if_pos hmore, heq, ← Nat.succ_mul]
    dsimp only
    rw [Bool.not_true, if_neg Bool.false_ne_true, ← Nat.succ_add_eq_add_succ]
    exact ih hb' (by omega)

theorem start_holds (pool : Pool) (memory : PhysicalMemory) (cr3 : Word) (limit : Nat) : ∃ b₁ b₂ b₃,
    (⟨memory, 0#64, [], cr3, limit⟩ : Bootstrap).allocateBootstrapTable pool = (poolPage pool 0, b₁) ∧
    b₁.mapHuge2m pool (poolPage pool 0) 0#64 0#64 = (true, b₂) ∧
    b₂.mapHuge2m pool (poolPage pool 0) kernelRegionBase 0#64 = (true, b₃) ∧
    Holds pool b₃ (tableCount 0) (layout pool 0) := by
  have h₀ : Holds pool ⟨memory, 0#64, [], cr3, limit⟩ 0 fun _ _ => 0#64 :=
    ⟨rfl, rfl, fun k hk => absurd hk (Nat.not_lt_zero k), Nat.zero_le _⟩
  obtain ⟨b₁, heq₁, h₁⟩ := h₀.table (by decide)
  obtain ⟨b₂, heq₂, h₂⟩ := @Holds.map_tables pool b₁ 1 _ 0#64 0#64 h₁ (by decide) (by decide) (by decide) (by decide) rfl
  have hne : pml4Index kernelRegionBase ≠ pml4Index 0#64 := by decide
  obtain ⟨b₃, heq₃, h₃⟩ := @Holds.map_tables pool b₂ 3 _ kernelRegionBase 0#64 h₂ (by decide) (by decide) (by decide)
    (by decide) (by rw [store_eq, if_neg (by decide), store_eq, if_neg (by decide), blank_eq, if_neg (by decide), store_eq,
      if_neg (fun h => hne h.2), blank_eq, if_neg (by decide), blank_eq, if_pos rfl])
  refine ⟨b₁, b₂, b₃, heq₁, heq₂, heq₃, h₃.congr fun k hk => ?_⟩
  funext i
  have hindex : ∀ i i' : Index, i = i' ↔ i.val = i'.val := fun i i' => Fin.ext_iff
  have hlow : (pml4Index 0#64).val = 0 ∧ (pdptIndex 0#64).val = 0 ∧ (pdIndex 0#64).val = 0 := by decide
  have hhigh : (pml4Index kernelRegionBase).val = 511 ∧ (pdptIndex kernelRegionBase).val = 510 ∧
    (pdIndex kernelRegionBase).val = 0 := by decide
  rw [show 0#64 &&& twoMiBAddressMask ||| pagePresent ||| pageWritable ||| pageHuge = hugeEntry 0 from rfl,
    store_eq, store_eq, blank_eq, store_eq, blank_eq, store_eq, store_eq, blank_eq, store_eq, blank_eq, blank_eq]
  simp only [hindex, hlow, hhigh]
  change k < 5 at hk
  obtain rfl | rfl | rfl | rfl | rfl : k = 0 ∨ k = 1 ∨ k = 2 ∨ k = 3 ∨ k = 4 := by omega
  all_goals
    unfold layout
    grind

end Layout

end Linux95.Memory.Bootstrap
