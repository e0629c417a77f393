import Mathlib.Algebra.Group.Nat.Defs
import Mathlib.Data.Finset.Card
import Mathlib.Logic.Function.Basic

/-! The bitmap of pages of `memory/page_bitmap.hpp`: bits in bytes, a count of the clear ones, and a hint where the
search for one begins. -/

namespace Linux95.Memory

structure PageBitmap where
  storage : Option (Nat → UInt8)
  pageCount : Nat
  freeCount : Nat
  nextHint : Nat

namespace PageBitmap

def new : PageBitmap := ⟨none, 0, 0, 0⟩

/-- `initialize`; the sum of the page count and 7 is one of 64 bits. -/
def init (storage : Option (Nat → UInt8)) (pageCount : Nat) : PageBitmap :=
  match storage with
  | none => ⟨none, 0, 0, 0⟩
  | some storage =>
    if pageCount = 0 then ⟨some storage, 0, 0, 0⟩
    else
      let bytes := (pageCount + 7) % 2 ^ 64 / 8
      ⟨some fun i => if i < bytes then 0xFF else storage i, pageCount, 0, 0⟩

def bitMask (index : Nat) : UInt8 := 1 <<< UInt8.ofNat (index % 8)

def isUsed (b : PageBitmap) (index : Nat) : Bool :=
  match b.storage with
  | none => true
  | some bytes => if index ≥ b.pageCount then true else bytes (index / 8) &&& bitMask index != 0

def markFree (b : PageBitmap) (index : Nat) : Bool × PageBitmap :=
  match b.storage with
  | none => (false, b)
  | some bytes =>
    if index ≥ b.pageCount || !b.isUsed index then (false, b)
    else
      (true, { b with
        storage := some (Function.update bytes (index / 8) (bytes (index / 8) &&& ~~~bitMask index))
        freeCount := b.freeCount + 1
        nextHint := if index < b.nextHint then index else b.nextHint })

def markUsed (b : PageBitmap) (index : Nat) : Bool × PageBitmap :=
  match b.storage with
  | none => (false, b)
  | some bytes =>
    if index ≥ b.pageCount || b.isUsed index then (false, b)
    else
      (true, { b with
        storage := some (Function.update bytes (index / 8) (bytes (index / 8) ||| bitMask index))
        freeCount := b.freeCount - 1
        nextHint := if index = b.nextHint then b.nextHint + 1 else b.nextHint })

/-- The two passes of `allocate`: from the hint to the end, then from the start to the hint. -/
def search (b : PageBitmap) : Option Nat :=
  (List.range' b.nextHint (b.pageCount - b.nextHint) ++ List.range b.nextHint).find? fun index =>
    !b.isUsed index

def allocate (b : PageBitmap) : Option Nat × PageBitmap :=
  if b.storage.isNone || b.freeCount = 0 then (none, b)
  else
    match b.search with
    | none => (none, b)
    | some index =>
      (some index, { (b.markUsed index).2 with
        nextHint := if index + 1 ≥ b.pageCount then 0 else index + 1 })

section Bits

theorem getLsbD_bitMask (index : Nat) {j : Nat} (hj : j < 8) :
    (bitMask index).toBitVec.getLsbD j = decide (j = index % 8) := by
  have hcases : ∀ i < 8, ∀ j < 8, ((1 : UInt8) <<< UInt8.ofNat i).toBitVec.getLsbD j = decide (j = i) := by decide
  exact hcases _ (Nat.mod_lt _ (by decide)) j hj

theorem and_bitMask_ne_zero (byte : UInt8) (index : Nat) :
    (byte &&& bitMask index != 0) = byte.toBitVec.getLsbD (index % 8) := by
  have hlt := Nat.mod_lt index (show 8 > 0 by decide)
  rw [Bool.eq_iff_iff, bne_iff_ne, ne_eq, ← UInt8.toBitVec_inj, UInt8.toBitVec_and]
  constructor
  · intro h
    by_contra hbit
    apply h
    apply BitVec.eq_of_getLsbD_eq
    intro j hj
    rw [BitVec.getLsbD_and, getLsbD_bitMask index hj]
    by_cases heq : j = index % 8
    · rw [heq, Bool.eq_false_iff.mpr hbit]
      exact (BitVec.getLsbD_zero).symm
    · rw [decide_eq_false heq, Bool.and_false]
      exact (BitVec.getLsbD_zero).symm
  · intro hbit hzero
    have h := congrArg (fun bits => bits.getLsbD (index % 8)) hzero
    rw [BitVec.getLsbD_and, getLsbD_bitMask index hlt, hbit, decide_eq_true rfl,
      show (0 : UInt8).toBitVec = 0#8 from rfl, BitVec.getLsbD_zero] at h
    cases h

theorem update_bit {bytes : Nat → UInt8} {byte : UInt8} {index : Nat} {value : Bool}
    (hbyte : ∀ j < 8, byte.toBitVec.getLsbD j =
      if j = index % 8 then value else (bytes (index / 8)).toBitVec.getLsbD j) (i : Nat) :
    (Function.update bytes (index / 8) byte (i / 8)).toBitVec.getLsbD (i % 8) =
      if i = index then value else (bytes (i / 8)).toBitVec.getLsbD (i % 8) := by
  by_cases hi : i / 8 = index / 8
  · rw [hi, Function.update_self, hbyte _ (Nat.mod_lt i (by decide))]
    by_cases heq : i = index
    · rw [if_pos heq, if_pos (by rw [heq])]
    · rw [if_neg heq, if_neg (by omega)]
  · rw [Function.update_of_ne hi, if_neg]
    rintro rfl
    exact hi rfl

end Bits

variable {b : PageBitmap} {index : Nat}

theorem isUsed_some {bytes : Nat → UInt8} (h : b.storage = some bytes) (i : Nat) :
    b.isUsed i = (decide (b.pageCount ≤ i) || (bytes (i / 8)).toBitVec.getLsbD (i % 8)) := by
  unfold isUsed
  rw [h]
  dsimp only
  rw [and_bitMask_ne_zero]
  split
  · rw [decide_eq_true ‹_›, Bool.true_or]
  · rw [decide_eq_false ‹_›, Bool.false_or]

theorem lt_of_isUsed_eq_false (h : b.isUsed index = false) : index < b.pageCount := by
  unfold isUsed at h
  split at h
  · cases h
  split at h
  · cases h
  · exact Nat.not_le.mp ‹_›

theorem markFree_cases (b : PageBitmap) (index : Nat) :
    b.markFree index = (false, b) ∧ (b.isUsed index = false ∨ b.pageCount ≤ index ∨ b.storage = none) ∨
    ∃ b', b.markFree index = (true, b') ∧ index < b.pageCount ∧ b.isUsed index = true ∧
      (∀ i, b'.isUsed i = if i = index then false else b.isUsed i) ∧ b'.pageCount = b.pageCount ∧
      b'.freeCount = b.freeCount + 1 ∧ b'.nextHint = (if index < b.nextHint then index else b.nextHint) ∧
      (b'.storage = none ↔ b.storage = none) := by
  unfold markFree
  cases hstorage : b.storage with
  | none => exact Or.inl ⟨rfl, Or.inr (Or.inr rfl)⟩
  | some bytes =>
    dsimp only
    by_cases hindex : b.pageCount ≤ index
    · rw [if_pos (by simp [hindex])]
      exact Or.inl ⟨rfl, Or.inr (Or.inl hindex)⟩
    by_cases hused : b.isUsed index = true
    · rw [if_neg (by simp [hindex, hused])]
      refine Or.inr ⟨_, rfl, Nat.not_le.mp hindex, hused, fun i => ?_, rfl, rfl, rfl, by simp⟩
      have hbyte : ∀ j < 8, (bytes (index / 8) &&& ~~~bitMask index).toBitVec.getLsbD j =
          if j = index % 8 then false else (bytes (index / 8)).toBitVec.getLsbD j := by
        intro j hj
        rw [UInt8.toBitVec_and, UInt8.toBitVec_not, BitVec.getLsbD_and, BitVec.getLsbD_not, getLsbD_bitMask index hj]
        by_cases heq : j = index % 8
        · simp [heq]
        · simp [heq, hj]
      rw [isUsed_some rfl, isUsed_some hstorage, update_bit hbyte]
      dsimp only
      split
      · rename_i heq
        rw [heq, decide_eq_false hindex, Bool.false_or]
      · rfl
    · rw [if_pos (by simp [hused])]
      exact Or.inl ⟨rfl, Or.inl (Bool.eq_false_iff.mpr hused)⟩

theorem markUsed_cases (b : PageBitmap) (index : Nat) :
    b.markUsed index = (false, b) ∧ b.isUsed index = true ∨
    ∃ b', b.markUsed index = (true, b') ∧ b.isUsed index = false ∧
      (∀ i, b'.isUsed i = if i = index then true else b.isUsed i) ∧ b'.pageCount = b.pageCount ∧
      b'.freeCount = b.freeCount - 1 ∧ b'.nextHint = (if index = b.nextHint then b.nextHint + 1 else b.nextHint) ∧
      (b'.storage = none ↔ b.storage = none) := by
  unfold markUsed
  cases hstorage : b.storage with
  | none =>
    refine Or.inl ⟨rfl, ?_⟩
    unfold isUsed
    rw [hstorage]
  | some bytes =>
    dsimp only
    by_cases hused : b.isUsed index = true
    · rw [if_pos (by simp [hused])]
      exact Or.inl ⟨rfl, hused⟩
    have hfree := Bool.eq_false_iff.mpr hused
    have hindex := lt_of_isUsed_eq_false hfree
    rw [if_neg (by simp [hused]; omega)]
    refine Or.inr ⟨_, rfl, hfree, fun i => ?_, rfl, rfl, rfl, by simp⟩
    have hbyte : ∀ j < 8, (bytes (index / 8) ||| bitMask index).toBitVec.getLsbD j =
        if j = index % 8 then true else (bytes (index / 8)).toBitVec.getLsbD j := by
      intro j hj
      rw [UInt8.toBitVec_or, BitVec.getLsbD_or, getLsbD_bitMask index hj]
      by_cases heq : j = index % 8
      · simp [heq]
      · simp [heq]
    rw [isUsed_some rfl, isUsed_some hstorage, update_bit hbyte]
    dsimp only
    split
    · rw [Bool.or_true]
    · rfl

section Marks

theorem markUsed_isUsed (b : PageBitmap) (index i : Nat) :
    (b.markUsed index).2.isUsed i = (decide (i = index) || b.isUsed i) := by
  rcases markUsed_cases b index with ⟨heq, hused⟩ | ⟨b', heq, -, hbits, -⟩
  · rw [heq]
    by_cases hi : i = index
    · rw [hi, hused, Bool.or_true]
    · rw [decide_eq_false hi, Bool.false_or]
  · rw [heq, hbits]
    by_cases hi : i = index
    · rw [if_pos hi, decide_eq_true hi, Bool.true_or]
    · rw [if_neg hi, decide_eq_false hi, Bool.false_or]

theorem markFree_isUsed (b : PageBitmap) (index i : Nat) : (b.markFree index).2.isUsed i = false ↔
    (i = index ∧ index < b.pageCount ∧ b.storage ≠ none) ∨ b.isUsed i = false := by
  rcases markFree_cases b index with ⟨heq, hrefused⟩ | ⟨b', heq, hlt, -, hbits, -, -, -, hstorage⟩
  · rw [heq]
    refine ⟨Or.inr, fun hor => hor.elim (fun ⟨hi, hlt, hstorage⟩ => ?_) id⟩
    rcases hrefused with hfree | hge | hnone
    · rw [hi]
      exact hfree
    · exact absurd hlt (Nat.not_lt.mpr hge)
    · exact absurd hnone hstorage
  · have hplace : b.storage ≠ none := by
      intro hnone
      unfold markFree at heq
      rw [hnone] at heq
      exact Bool.false_ne_true (congrArg Prod.fst heq)
    rw [heq, hbits]
    by_cases hi : i = index
    · rw [if_pos hi]
      exact ⟨fun _ => Or.inl ⟨hi, hlt, hplace⟩, fun _ => rfl⟩
    · rw [if_neg hi]
      exact ⟨Or.inr, fun hor => hor.resolve_left fun hand => hi hand.1⟩

theorem markUsed_shape (b : PageBitmap) (index : Nat) : (b.markUsed index).2.pageCount = b.pageCount ∧
    ((b.markUsed index).2.storage = none ↔ b.storage = none) := by
  rcases markUsed_cases b index with ⟨heq, -⟩ | ⟨b', heq, -, -, hpages, -, -, hstorage⟩
  · rw [heq]
    exact ⟨rfl, Iff.rfl⟩
  · rw [heq]
    exact ⟨hpages, hstorage⟩

theorem markFree_shape (b : PageBitmap) (index : Nat) : (b.markFree index).2.pageCount = b.pageCount ∧
    ((b.markFree index).2.storage = none ↔ b.storage = none) := by
  rcases markFree_cases b index with ⟨heq, -⟩ | ⟨b', heq, -, -, -, hpages, -, -, hstorage⟩
  · rw [heq]
    exact ⟨rfl, Iff.rfl⟩
  · rw [heq]
    exact ⟨hpages, hstorage⟩

end Marks

def clear (b : PageBitmap) : Finset Nat := (Finset.range b.pageCount).filter fun i => b.isUsed i = false

theorem mem_clear {i : Nat} : i ∈ b.clear ↔ b.isUsed i = false := by
  unfold clear
  rw [Finset.mem_filter, Finset.mem_range]
  exact ⟨And.right, fun h => ⟨lt_of_isUsed_eq_false h, h⟩⟩

structure Sound (b : PageBitmap) : Prop where
  freeCount : b.freeCount = b.clear.card
  nextHint : ∀ i, b.isUsed i = false → b.nextHint ≤ i

theorem Sound.markFree (h : b.Sound) (index : Nat) : (b.markFree index).2.Sound := by
  rcases markFree_cases b index with ⟨heq, -⟩ | ⟨b', heq, -, hused, hbits, -, hcount, hhint, -⟩
  · rw [heq]
    exact h
  · rw [heq]
    have hclear : b'.clear = insert index b.clear := by
      ext i
      rw [mem_clear, hbits, Finset.mem_insert, mem_clear]
      by_cases hi : i = index
      · simp [hi]
      · simp [hi]
    refine ⟨?_, fun i hi => ?_⟩
    · rw [hcount, hclear, Finset.card_insert_of_notMem, h.freeCount]
      rw [mem_clear, hused]
      exact Bool.noConfusion
    · rw [hbits] at hi
      rw [hhint]
      split at hi
      · rename_i heq
        rw [heq]
        split
        · exact Nat.le_refl _
        · exact Nat.not_lt.mp ‹_›
      · have hle := h.nextHint i hi
        split
        · omega
        · exact hle

theorem card_clear_set {b' : PageBitmap} (hfree : b.isUsed index = false)
    (hbits : ∀ i, b'.isUsed i = if i = index then true else b.isUsed i) : b'.clear.card = b.clear.card - 1 := by
  have hclear : b'.clear = b.clear.erase index := by
    ext i
    rw [mem_clear, hbits, Finset.mem_erase, mem_clear]
    by_cases hi : i = index
    · simp [hi]
    · simp [hi]
  rw [hclear, Finset.card_erase_of_mem (mem_clear.mpr hfree)]

theorem Sound.markUsed (h : b.Sound) (index : Nat) : (b.markUsed index).2.Sound := by
  rcases markUsed_cases b index with ⟨heq, -⟩ | ⟨b', heq, hfree, hbits, -, hcount, hhint, -⟩
  · rw [heq]
    exact h
  · rw [heq]
    refine ⟨?_, fun i hi => ?_⟩
    · rw [hcount, card_clear_set hfree hbits, h.freeCount]
    · rw [hbits] at hi
      split at hi
      · cases hi
      · have hle := h.nextHint i hi
        rw [hhint]
        split
        · omega
        · exact hle

def lowest (b : PageBitmap) : Option Nat := (List.range b.pageCount).find? fun index => !b.isUsed index

theorem lowest_eq_some {i : Nat} :
    b.lowest = some i ↔ b.isUsed i = false ∧ ∀ j, b.isUsed j = false → i ≤ j := by
  unfold lowest
  rw [List.find?_range_eq_some]
  constructor
  · rintro ⟨hfree, -, hbelow⟩
    refine ⟨by simpa using hfree, fun j hj => Nat.not_lt.mp fun hlt => ?_⟩
    have hused := hbelow j hlt
    rw [hj] at hused
    cases hused
  · rintro ⟨hfree, hleast⟩
    refine ⟨by rw [hfree]; rfl, List.mem_range.mpr (lt_of_isUsed_eq_false hfree), fun j hlt => ?_⟩
    rw [Bool.not_not]
    by_contra hused
    have hle := hleast j (Bool.eq_false_iff.mpr hused)
    omega

theorem lowest_eq_none : b.lowest = none ↔ ∀ i, b.isUsed i = true := by
  unfold lowest
  rw [List.find?_eq_none]
  constructor
  · intro h i
    by_contra hfree
    have hfree := Bool.eq_false_iff.mpr hfree
    have hnot := h i (List.mem_range.mpr (lt_of_isUsed_eq_false hfree))
    rw [hfree] at hnot
    exact hnot rfl
  · intro h i _
    rw [h i]
    exact Bool.false_ne_true

theorem Sound.search (h : b.Sound) : b.search = b.lowest := by
  have hbelow : (List.range b.nextHint).find? (fun index => !b.isUsed index) = none := by
    rw [List.find?_eq_none]
    intro i hi hfree
    have hle := h.nextHint i (by simpa using hfree)
    have hlt := List.mem_range.mp hi
    omega
  have hpasses : b.search = (List.range' b.nextHint (b.pageCount - b.nextHint)).find? fun index => !b.isUsed index := by
    unfold PageBitmap.search
    rw [List.find?_append, hbelow, Option.or_none]
  rw [hpasses]
  by_cases hhint : b.nextHint ≤ b.pageCount
  · have hrange : List.range b.pageCount =
        List.range b.nextHint ++ List.range' b.nextHint (b.pageCount - b.nextHint) := by
      have hsplit := @List.range'_append_1 0 b.nextHint (b.pageCount - b.nextHint)
      rw [Nat.zero_add, Nat.add_sub_cancel' hhint] at hsplit
      rw [List.range_eq_range', List.range_eq_range', hsplit]
    unfold lowest
    rw [hrange, List.find?_append, hbelow, Option.none_or]
  · have hnone : b.lowest = none := by
      refine lowest_eq_none.mpr fun i => ?_
      by_contra hfree
      have hfree := Bool.eq_false_iff.mpr hfree
      have hle := h.nextHint i hfree
      have hlt := lt_of_isUsed_eq_false hfree
      omega
    rw [hnone, Nat.sub_eq_zero_of_le (by omega)]
    rfl

theorem Sound.allocate (h : b.Sound) :
    b.allocate = (none, b) ∧ (∀ i, b.isUsed i = true) ∨
    ∃ i b', b.allocate = (some i, b') ∧ b.isUsed i = false ∧ (∀ j, b.isUsed j = false → i ≤ j) ∧
      (∀ j, b'.isUsed j = if j = i then true else b.isUsed j) ∧ b'.pageCount = b.pageCount ∧
      (b'.storage = none ↔ b.storage = none) ∧ b'.Sound := by
  unfold PageBitmap.allocate
  by_cases hempty : ∀ i, b.isUsed i = true
  · refine Or.inl ⟨?_, hempty⟩
    rw [h.search, lowest_eq_none.mpr hempty, ite_self]
  refine Or.inr ?_
  cases hlowest : b.lowest with
  | none => exact absurd (lowest_eq_none.mp hlowest) hempty
  | some i =>
    obtain ⟨hfree, hleast⟩ := lowest_eq_some.mp hlowest
    have hstorage : b.storage.isNone = false := by
      unfold isUsed at hfree
      cases hstorage : b.storage with
      | none =>
        rw [hstorage] at hfree
        cases hfree
      | some bytes => rfl
    have hcount : b.freeCount ≠ 0 := by
      rw [h.freeCount]
      exact Finset.card_ne_zero_of_mem (mem_clear.mpr hfree)
    rw [h.search, hlowest, hstorage, Bool.false_or, if_neg (by simpa using hcount)]
    rcases markUsed_cases b i with ⟨-, hused⟩ | ⟨b', heq, -, hbits, hpages, hfreeCount, -, hstorage'⟩
    · rw [hfree] at hused
      cases hused
    · refine ⟨i, _, rfl, hfree, hleast, ?_, ?_, ?_, ?_, ?_⟩
      · rw [heq]
        exact hbits
      · rw [heq]
        exact hpages
      · rw [heq]
        exact hstorage'
      · rw [heq]
        exact (hfreeCount.trans (congrArg (· - 1) h.freeCount)).trans (card_clear_set hfree hbits).symm
      · rw [heq]
        intro j hj
        have hj : b'.isUsed j = false := hj
        rw [hbits] at hj
        split at hj
        · cases hj
        · have hle := hleast j hj
          change (if i + 1 ≥ b.pageCount then 0 else i + 1) ≤ j
          split
          · exact Nat.zero_le j
          · omega

theorem init_shape (storage : Nat → UInt8) (pageCount : Nat) :
    (init (some storage) pageCount).pageCount = pageCount ∧ (init (some storage) pageCount).storage ≠ none := by
  unfold init
  dsimp only
  split
  · exact ⟨Eq.symm ‹_›, Option.some_ne_none _⟩
  · exact ⟨rfl, Option.some_ne_none _⟩

theorem sound_init {storage : Option (Nat → UInt8)} {pageCount : Nat} (hroom : pageCount ≤ 8 * 2 ^ 48) :
    (init storage pageCount).Sound ∧ ∀ i, (init storage pageCount).isUsed i = true := by
  have hused : ∀ i, (init storage pageCount).isUsed i = true := by
    intro i
    unfold init
    cases storage with
    | none => rfl
    | some storage =>
      dsimp only
      split
      · rw [isUsed_some rfl]
        exact Bool.or_eq_true_iff.mpr (Or.inl (decide_eq_true (Nat.zero_le i)))
      · rw [isUsed_some rfl]
        dsimp only
        by_cases hi : pageCount ≤ i
        · rw [decide_eq_true hi, Bool.true_or]
        · rw [if_pos (by omega), Bool.or_eq_true]
          have hbits : ∀ j < 8, (0xFF : UInt8).toBitVec.getLsbD j = true := by decide
          exact Or.inr (hbits _ (Nat.mod_lt _ (by decide)))
  have hclear : (init storage pageCount).clear = ∅ := by
    ext i
    rw [mem_clear, hused]
    simp
  refine ⟨⟨?_, fun i hi => ?_⟩, hused⟩
  · rw [hclear]
    unfold init
    cases storage with
    | none => rfl
    | some storage =>
      dsimp only
      split <;> rfl
  · rw [hused] at hi
    cases hi

inductive Op where
  | markFree (index : Nat)
  | markUsed (index : Nat)
  | allocate

def Op.exec (b : PageBitmap) : Op → PageBitmap
  | .markFree index => (b.markFree index).2
  | .markUsed index => (b.markUsed index).2
  | .allocate => b.allocate.2

theorem run_pageCount (b : PageBitmap) (ops : List Op) : (ops.foldl Op.exec b).pageCount = b.pageCount := by
  induction ops generalizing b with
  | nil => rfl
  | cons op ops ih =>
    rw [List.foldl_cons, ih]
    cases op with
    | markFree index => exact (markFree_shape b index).1
    | markUsed index => exact (markUsed_shape b index).1
    | allocate =>
      dsimp only [Op.exec]
      unfold PageBitmap.allocate
      split
      · rfl
      split
      · rfl
      · exact (markUsed_shape b _).1

theorem Sound.exec (h : b.Sound) (op : Op) : (op.exec b).Sound := by
  cases op with
  | markFree index => exact h.markFree index
  | markUsed index => exact h.markUsed index
  | allocate =>
    dsimp only [Op.exec]
    rcases h.allocate with ⟨heq, -⟩ | ⟨i, b', heq, -, -, -, -, -, hsound⟩
    · rw [heq]
      exact h
    · rw [heq]
      exact hsound

theorem Sound.run (h : b.Sound) (ops : List Op) : (ops.foldl Op.exec b).Sound := by
  induction ops generalizing b with
  | nil => exact h
  | cons op ops ih => exact ih (h.exec op)

theorem Sound.allocate_fst (h : b.Sound) : b.allocate.1 = b.lowest := by
  rcases h.allocate with ⟨heq, hused⟩ | ⟨i, b', heq, hfree, hleast, -⟩
  · rw [heq, lowest_eq_none.mpr hused]
  · rw [heq, lowest_eq_some.mpr ⟨hfree, hleast⟩]

end PageBitmap

end Linux95.Memory
