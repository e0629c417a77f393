import Linux95.Gui.WindowManager
import Mathlib.Data.Finset.Card
import Mathlib.Data.Fintype.Card

/-! The z order of the windows: what `compact_z` and `raise` do to a table whose z values are
0, 1, ..., n-1. -/

namespace Linux95.Gui
open Base

theorem mem_slots (i : Slot) : i ∈ slots := List.mem_finRange i

namespace Windows

variable {ws : Windows} {id : WindowId} {i j t : Slot}

theorem findMutable_some (h : ws.findMutable id = some i) :
    id ≠ 0 ∧ ws.live i = true ∧ (ws i).id = id := by
  rw [findMutable] at h
  split at h
  · cases h
  · next hid =>
    have hp := List.find?_some h
    simp only [Bool.and_eq_true, decide_eq_true_eq] at hp
    exact ⟨hid, hp⟩

theorem findMutable_none (hid : id ≠ 0) (h : ws.findMutable id = none) (hi : ws.live i = true) :
    (ws i).id ≠ id := by
  rw [findMutable, if_neg hid] at h
  have hp := List.find?_eq_none.mp h i (mem_slots i)
  simpa [hi] using hp

structure DistinctIds (ws : Windows) : Prop where
  ne_zero : ∀ i, ws.live i = true → (ws i).id ≠ 0
  inj : ∀ i j, ws.live i = true → ws.live j = true → (ws i).id = (ws j).id → i = j

theorem DistinctIds.findMutable (h : DistinctIds ws) (hi : ws.live i = true) :
    ws.findMutable (ws i).id = some i := by
  cases hf : ws.findMutable (ws i).id with
  | none => exact absurd rfl (findMutable_none (h.ne_zero i hi) hf hi)
  | some j =>
    obtain ⟨-, hj, hid⟩ := findMutable_some hf
    rw [h.inj j i hj hi hid]

theorem DistinctIds.other_iff (h : DistinctIds ws) (ht : ws.findMutable id = some t) :
    ws.other id i = true ↔ ws.live i = true ∧ i ≠ t := by
  obtain ⟨-, hlive, hid⟩ := findMutable_some ht
  simp only [other, Bool.and_eq_true, decide_eq_true_eq]
  constructor
  · rintro ⟨hi, hne⟩
    refine ⟨hi, ?_⟩
    rintro rfl
    exact hne hid
  · rintro ⟨hi, hne⟩
    refine ⟨hi, fun heq => hne ?_⟩
    exact h.inj i t hi hlive (heq.trans hid.symm)

theorem lowest_none {next : Nat} (h : ws.lowest next = none) (hi : ws.live i = true) :
    ws.z i < next := by
  have hp := (scanBest_eq_none _).mp h i (mem_slots i)
  simpa [hi] using hp

theorem lowest_some {next : Nat} (h : ws.lowest next = some i) :
    ws.live i = true ∧ next ≤ ws.z i ∧
      ∀ j, ws.live j = true → next ≤ ws.z j → ws.z i ≤ ws.z j := by
  obtain ⟨-, hp, hmin⟩ := scanBest_some (by simp)
    (fun a b c hab hbc => by simp only [decide_eq_true_eq] at *; omega) _ h
  simp only [Bool.and_eq_true, decide_eq_true_eq] at hp
  refine ⟨hp.1, hp.2, ?_⟩
  intro j hj hnext
  have := hmin j (mem_slots j) (by simp [hj, hnext])
  simpa using this

theorem compactFrom_settled (fuel next : Nat) (ws : Windows) (hnext : next + fuel < 2 ^ 8)
    (hfuel : (Finset.univ.filter fun i => ws.live i = true ∧ next ≤ ws.z i).card < fuel) :
    ∃ last, (compactFrom fuel next ws).lowest last = none := by
  -- a round of the loop moves one entry below `nextZ`, so `maxWindows` rounds leave none
  induction fuel generalizing next ws with
  | zero => omega
  | succ fuel ih =>
    rw [compactFrom]
    split
    · next h => exact ⟨next, h⟩
    · next i h =>
      obtain ⟨hi, hz, hmin⟩ := lowest_some h
      rw [Nat.mod_eq_of_lt (by omega)]
      apply ih _ _ (by omega)
      have hsub : (Finset.univ.filter fun j => (ws.setZ i next).live j = true ∧
          next + 1 ≤ (ws.setZ i next).z j) ⊂
          Finset.univ.filter fun j => ws.live j = true ∧ next ≤ ws.z j := by
        rw [Finset.ssubset_iff_of_subset]
        · refine ⟨i, by simp [hi, hz], ?_⟩
          intro hmem
          have hlt := (Finset.mem_filter.mp hmem).2.2
          rw [z, setZ, Function.update_self] at hlt
          exact Nat.not_succ_le_self _ hlt
        · intro j hj
          simp only [Finset.mem_filter, Finset.mem_univ, true_and] at hj ⊢
          rcases eq_or_ne j i with rfl | hne
          · exact ⟨hi, hz⟩
          · simp only [setZ, z, live, Function.update_of_ne hne] at hj ⊢
            exact ⟨hj.1, by omega⟩
      have := Finset.card_lt_card hsub
      omega

theorem compactZ_settled (ws : Windows) : ∃ last, ws.compactZ.lowest last = none := by
  -- so the loop of `compact_z` ends, whatever the z values are
  apply compactFrom_settled _ _ _ (by decide)
  apply Nat.lt_succ_of_le
  apply (Finset.card_le_univ _).trans
  rw [Fintype.card_fin]

def closeGap (ws : Windows) (gap : Nat) : Windows :=
  fun i => if ws.live i = true ∧ gap < ws.z i then { ws i with z := ws.z i - 1 } else ws i

def closeGapTo (ws : Windows) (gap next : Nat) : Windows :=
  fun i => if ws.live i = true ∧ gap < ws.z i ∧ ws.z i ≤ next then { ws i with z := ws.z i - 1 }
    else ws i

theorem closeGapTo_live (gap next : Nat) : (ws.closeGapTo gap next).live i = ws.live i := by
  rw [live, closeGapTo]
  split <;> rfl

theorem closeGapTo_z (gap next : Nat) :
    (ws.closeGapTo gap next).z i =
      if ws.live i = true ∧ gap < ws.z i ∧ ws.z i ≤ next then ws.z i - 1 else ws.z i := by
  rw [z, closeGapTo]
  split <;> rfl

/-- The z values in use are all the numbers up to the largest, `gap` apart, and above the gap each
is used once. -/
structure Gapped (ws : Windows) (gap : Nat) : Prop where
  lt : ∀ i, ws.live i = true → ws.z i < maxWindows
  full : ∀ i, ws.live i = true → ∀ v ≤ ws.z i, v ≠ gap → ∃ j, ws.live j = true ∧ ws.z j = v
  ne : ∀ i, ws.live i = true → ws.z i ≠ gap
  inj : ∀ i j, ws.live i = true → ws.live j = true → gap < ws.z i → ws.z i = ws.z j → i = j

theorem Gapped.compactFrom {gap : Nat} (h : Gapped ws gap) (fuel next : Nat)
    (hfuel : next + fuel = maxWindows + 1) :
    compactFrom fuel next (ws.closeGapTo gap next) = ws.closeGap gap := by
  induction fuel generalizing next with
  | zero =>
    rw [Windows.compactFrom]
    funext i
    rw [closeGapTo, closeGap]
    have hz : ws.live i = true → ws.z i ≤ next := fun hi => by
      have := h.lt i hi
      omega
    grind
  | succ fuel ih =>
    rw [Windows.compactFrom]
    split
    · next hnone =>
      -- nothing is left at `next` or above
      funext i
      have hz : ws.live i = true → ws.z i ≤ next := fun hi => by
        have hlt := lowest_none hnone (i := i) (by rw [closeGapTo_live]; exact hi)
        rw [closeGapTo_z] at hlt
        split at hlt <;> omega
      rw [closeGapTo, closeGap]
      grind
    · next i hsome =>
      obtain ⟨hlive, hge, hmin⟩ := lowest_some hsome
      rw [closeGapTo_live] at hlive
      have hmin' : ∀ j, ws.live j = true → next ≤ (ws.closeGapTo gap next).z j →
          (ws.closeGapTo gap next).z i ≤ (ws.closeGapTo gap next).z j :=
        fun j hj => hmin j (by rw [closeGapTo_live]; exact hj)
      simp only [closeGapTo_z] at hge hmin'
      have hmod : (next + 1) % 2 ^ 8 = next + 1 := by
        apply Nat.mod_eq_of_lt
        have : maxWindows = 8 := rfl
        omega
      rw [hmod, ← ih (next + 1) (by omega)]
      have hne := h.ne i hlive
      have hstep : (ws.closeGapTo gap next).setZ i next = ws.closeGapTo gap (next + 1) := by
        -- the lowest entry left is at `next` below the gap, and one above it from the gap on
        have hcase : (ws.z i = next ∧ next < gap) ∨ (gap ≤ next ∧ ws.z i = next + 1) := by
          by_cases hzi : ws.z i ≤ next
          · left
            simp only [hlive, true_and] at hge
            split at hge <;> omega
          · right
            have hgap : gap ≤ next := by
              by_contra hlt
              obtain ⟨j, hj, hzj⟩ := h.full i hlive next (by omega) (by omega)
              have := hmin' j hj
              split at this <;> split at this <;> omega
            obtain ⟨j, hj, hzj⟩ := h.full i hlive (next + 1) (by omega) (by omega)
            have := hmin' j hj
            refine ⟨hgap, ?_⟩
            split at this <;> split at this <;> omega
        funext k
        rcases eq_or_ne k i with rfl | hk
        · rw [setZ, Function.update_self, closeGapTo, closeGapTo]
          rcases hcase with ⟨hz, hlt⟩ | ⟨hle, hz⟩
          · rw [if_neg (by omega), if_neg (by omega), ← hz]
            rfl
          · rw [if_neg (by omega), if_pos ⟨hlive, by omega, by omega⟩, hz]
            rfl
        · rw [setZ, Function.update_of_ne hk, closeGapTo, closeGapTo]
          have : ws.live k = true → gap < ws.z k → ws.z k ≠ next + 1 := by
            intro hklive hgap hzk
            rcases hcase with ⟨hz, hlt⟩ | ⟨hle, hz⟩
            · omega
            · exact hk (h.inj k i hklive hlive hgap (by omega))
          grind
      rw [hstep]

theorem Gapped.compactZ {gap : Nat} (h : Gapped ws gap) : ws.compactZ = ws.closeGap gap := by
  have hstart : ws.closeGapTo gap 0 = ws := by
    funext i
    rw [closeGapTo, if_neg (by omega)]
  rw [Windows.compactZ, ← h.compactFrom (maxWindows + 1) 0 (by omega), hstart]

theorem compactZ_eq_self (hlt : ∀ i, ws.live i = true → ws.z i < maxWindows)
    (hfull : ∀ i, ws.live i = true → ∀ v ≤ ws.z i, ∃ j, ws.live j = true ∧ ws.z j = v) :
    ws.compactZ = ws := by
  -- a table without gaps is left as it is, also when z values occur twice
  have hg : Gapped ws maxWindows :=
    ⟨hlt, fun i hi v hv _ => hfull i hi v hv, fun i hi => (hlt i hi).ne,
      fun i _ hi _ hgap _ => by have := hlt i hi; omega⟩
  rw [hg.compactZ]
  funext i
  rw [closeGap, if_neg]
  rintro ⟨hi, hgap⟩
  have := hlt i hi
  omega

def count (ws : Windows) : Nat := (slots.filter ws.live).length

theorem count_eq_card (ws : Windows) :
    ws.count = (Finset.univ.filter fun i => ws.live i = true).card := by
  rw [count, slots, ← List.toFinset_card_of_nodup ((List.nodup_finRange maxWindows).filter _)]
  congr 1
  ext i
  simp

theorem count_le (ws : Windows) : ws.count ≤ maxWindows := by
  rw [count]
  apply (List.length_filter_le _ _).trans
  rw [slots, List.length_finRange]

/-- The z values in use are 0, 1, ..., n-1, each once. -/
structure Ranked (ws : Windows) : Prop where
  inj : ∀ i j, ws.live i = true → ws.live j = true → ws.z i = ws.z j → i = j
  lt : ∀ i, ws.live i = true → ws.z i < ws.count
  full : ∀ v < ws.count, ∃ i, ws.live i = true ∧ ws.z i = v

theorem Ranked.image (h : Ranked ws) :
    (Finset.univ.filter fun i => ws.live i = true).image ws.z = Finset.range ws.count := by
  ext v
  simp only [Finset.mem_image, Finset.mem_filter, Finset.mem_univ, true_and, Finset.mem_range]
  constructor
  · rintro ⟨i, hi, rfl⟩
    exact h.lt i hi
  · exact h.full v

def raisedTo (ws : Windows) (t : Slot) (z : Nat) : Windows :=
  fun i => if i = t then { ws t with z := z }
    else if ws.live i = true ∧ ws.z t < ws.z i then { ws i with z := ws.z i - 1 } else ws i

def raised (ws : Windows) (t : Slot) : Windows := ws.raisedTo t (ws.count - 1)

theorem highestFree_eq {v : Nat} (hlt : ∀ i, ws.other id i = true → ws.z i < v)
    (hv : v = 0 ∨ ∃ i, ws.other id i = true ∧ ws.z i + 1 = v) (hsmall : v < 2 ^ 8) :
    ws.highestFree id = v := by
  -- along the loop `highest` is 0 or some z value plus one, and above all those seen
  have key : ∀ xs : List Slot, ∃ h, h = xs.foldl (fun highest i =>
      if ws.other id i && decide (ws.z i ≥ highest) then (ws.z i + 1) % 2 ^ 8 else highest) 0 ∧
      (∀ i ∈ xs, ws.other id i = true → ws.z i < h) ∧ h ≤ v := by
    intro xs
    induction xs using List.reverseRecOn with
    | nil => exact ⟨0, rfl, by simp, Nat.zero_le _⟩
    | append_singleton xs x ih =>
      obtain ⟨h, hh, hall, hle⟩ := ih
      simp only [List.foldl_append, List.foldl_cons, List.foldl_nil, ← hh]
      by_cases hx : ws.other id x = true ∧ ws.z x ≥ h
      · have hxlt := hlt x hx.1
        rw [if_pos (by simp [hx]), Nat.mod_eq_of_lt (by omega)]
        refine ⟨_, rfl, ?_, hxlt⟩
        intro i hi ho
        rcases List.mem_append.mp hi with hi | hi
        · have := hall i hi ho
          omega
        · rw [List.mem_singleton.mp hi]
          omega
      · rw [if_neg (by simpa using hx)]
        refine ⟨h, rfl, ?_, hle⟩
        intro i hi ho
        rcases List.mem_append.mp hi with hi | hi
        · exact hall i hi ho
        · rw [List.mem_singleton.mp hi] at ho ⊢
          by_contra hge
          exact hx ⟨ho, by omega⟩
  obtain ⟨h, hh, hall, hle⟩ := key slots
  rw [highestFree, ← hh]
  rcases hv with rfl | ⟨i, ho, hi⟩
  · omega
  · have := hall i (mem_slots i) ho
    omega

theorem topZ_lt (h : Ranked ws) (ht : ws.live t = true) : (ws.topZ id).getD 0 < ws.count := by
  rw [topZ]
  cases hs : scanBest (ws.other id) (fun i j => decide (ws.z i > ws.z j)) slots with
  | none =>
    have := h.lt t ht
    simp only [Option.map_none, Option.getD_none]
    omega
  | some j =>
    obtain ⟨-, hj, -⟩ := scanBest_some (by simp)
      (fun a b c hab hbc => by simp only [decide_eq_true_eq] at *; omega) _ hs
    rw [other, Bool.and_eq_true] at hj
    exact h.lt j hj.1

section raise

variable (z : Nat)

theorem raisedTo_live : (ws.raisedTo t z).live i = ws.live i := by
  rw [live, live, raisedTo]
  split
  · next h => rw [h]
  · split <;> rfl

theorem raisedTo_id : (ws.raisedTo t z i).id = (ws i).id := by
  rw [raisedTo]
  split
  · next h => rw [h]
  · split <;> rfl

theorem raisedTo_z_self : (ws.raisedTo t z).z t = z := by
  rw [Windows.z, raisedTo, if_pos rfl]

theorem raisedTo_z (hi : i ≠ t) (hlive : ws.live i = true) :
    (ws.raisedTo t z).z i = if ws.z t < ws.z i then ws.z i - 1 else ws.z i := by
  rw [Windows.z, raisedTo, if_neg hi]
  simp only [hlive, true_and]
  split <;> rfl

theorem raisedTo_count : (ws.raisedTo t z).count = ws.count := by
  rw [count, count, show (ws.raisedTo t z).live = ws.live from funext fun i => raisedTo_live z]

theorem Ranked.raisedTo_z_lt (hr : Ranked ws) (ht : ws.live t = true) (hi : i ≠ t)
    (hlive : ws.live i = true) : (ws.raisedTo t z).z i + 1 < ws.count := by
  have hzi := hr.lt i hlive
  have hzt := hr.lt t ht
  have hne : ws.z i ≠ ws.z t := fun heq => hi (hr.inj i t hlive ht heq)
  rw [raisedTo_z z hi hlive]
  split <;> omega

theorem Ranked.raisedTo_full (hr : Ranked ws) {v : Nat} (hv : v + 1 < ws.count) :
    ∃ j, ws.live j = true ∧ j ≠ t ∧ (ws.raisedTo t z).z j = v := by
  by_cases hlow : v < ws.z t
  · obtain ⟨j, hj, hzj⟩ := hr.full v (by omega)
    have hne : j ≠ t := by
      rintro rfl
      omega
    refine ⟨j, hj, hne, ?_⟩
    rw [raisedTo_z z hne hj, if_neg (by omega), hzj]
  · obtain ⟨j, hj, hzj⟩ := hr.full (v + 1) hv
    have hne : j ≠ t := by
      rintro rfl
      omega
    refine ⟨j, hj, hne, ?_⟩
    rw [raisedTo_z z hne hj, if_pos (by omega), hzj, Nat.add_sub_cancel]

theorem Ranked.raisedTo_lt_iff (hr : Ranked ws) (ht : ws.live t = true) (hi : i ≠ t) (hj : j ≠ t)
    (hilive : ws.live i = true) (hjlive : ws.live j = true) :
    (ws.raisedTo t z).z i < (ws.raisedTo t z).z j ↔ ws.z i < ws.z j := by
  have hit : ws.z i ≠ ws.z t := fun h => hi (hr.inj i t hilive ht h)
  have hjt : ws.z j ≠ ws.z t := fun h => hj (hr.inj j t hjlive ht h)
  rw [raisedTo_z z hi hilive, raisedTo_z z hj hjlive]
  split <;> split <;> omega

variable {z}

theorem Ranked.raisedTo_compactZ (hr : Ranked ws) (ht : ws.live t = true) (hz : z < ws.count) :
    (ws.raisedTo t z).compactZ = ws.raisedTo t z := by
  -- with the target at any z in range the table has no gap, so the second compaction changes nothing
  have hlt : ∀ i, ws.live i = true → (ws.raisedTo t z).z i < ws.count := by
    intro i hi
    rcases eq_or_ne i t with rfl | hne
    · rw [raisedTo_z_self]
      exact hz
    · have := hr.raisedTo_z_lt z ht hne hi
      omega
  apply compactZ_eq_self
  · intro i hi
    rw [raisedTo_live] at hi
    exact (hlt i hi).trans_le (count_le ws)
  · intro i hi v hv
    rcases hv.eq_or_lt with rfl | hv
    · exact ⟨i, hi, rfl⟩
    · rw [raisedTo_live] at hi
      have := hlt i hi
      obtain ⟨j, hj, -, hzj⟩ := hr.raisedTo_full z (t := t) (v := v) (by omega)
      exact ⟨j, by rw [raisedTo_live]; exact hj, hzj⟩

theorem Ranked.raisedTo_highestFree (hr : Ranked ws) (h : DistinctIds ws)
    (ht : ws.findMutable id = some t) : (ws.raisedTo t z).highestFree id = ws.count - 1 := by
  have hlive := (findMutable_some ht).2.1
  have hother : ∀ i, (ws.raisedTo t z).other id i = true ↔ ws.live i = true ∧ i ≠ t := by
    intro i
    rw [← h.other_iff ht, other, other, raisedTo_live, raisedTo_id]
  apply highestFree_eq
  · intro i hi
    obtain ⟨hi, hne⟩ := (hother i).mp hi
    have := hr.raisedTo_z_lt z hlive hne hi
    omega
  · rcases Nat.lt_or_ge 1 ws.count with hgt | hle
    · obtain ⟨j, hj, hne, hzj⟩ := hr.raisedTo_full z (t := t) (v := ws.count - 2) (by omega)
      exact Or.inr ⟨j, (hother j).mpr ⟨hj, hne⟩, by omega⟩
    · exact Or.inl (by omega)
  · have hle := count_le ws
    have : maxWindows = 8 := rfl
    omega

theorem DistinctIds.lowerAbove_setZ (h : DistinctIds ws) (ht : ws.findMutable id = some t) :
    (ws.lowerAbove id (ws.z t)).setZ t z = ws.raisedTo t z := by
  funext i
  rw [raisedTo, setZ]
  rcases eq_or_ne i t with rfl | hi
  · rw [if_pos rfl, Function.update_self, lowerAbove, if_neg]
    simp
  · rw [if_neg hi, Function.update_of_ne hi, lowerAbove]
    have ho := h.other_iff (i := i) ht
    simp only [Bool.and_eq_true, decide_eq_true_eq, ho, hi, ne_eq, not_false_eq_true, and_true,
      gt_iff_lt]

theorem raisedTo_setZ (z' : Nat) : (ws.raisedTo t z).setZ t z' = ws.raisedTo t z' := by
  funext i
  rw [setZ]
  rcases eq_or_ne i t with rfl | hi
  · rw [Function.update_self, raisedTo, if_pos rfl, raisedTo, if_pos rfl]
  · rw [Function.update_of_ne hi, raisedTo, if_neg hi, raisedTo, if_neg hi]

theorem Ranked.raise_eq (hr : Ranked ws) (h : DistinctIds ws) (ht : ws.findMutable id = some t) :
    ws.raise id = ws.raised t := by
  have hlive := (findMutable_some ht).2.1
  have hcompact : ws.compactZ = ws := by
    apply compactZ_eq_self
    · intro i hi
      exact (hr.lt i hi).trans_le (count_le ws)
    · intro i hi v hv
      exact hr.full v (hv.trans_lt (hr.lt i hi))
  have htop : (ws.topZ id).getD 0 < ws.count := topZ_lt hr hlive
  simp only [raise, ht, hcompact, h.lowerAbove_setZ ht, hr.raisedTo_compactZ hlive htop,
    hr.raisedTo_highestFree h ht, raisedTo_setZ, raised]

theorem Ranked.raised (hr : Ranked ws) (ht : ws.live t = true) : Ranked (ws.raised t) := by
  have hpos : ws.z t < ws.count := hr.lt t ht
  rw [Windows.raised]
  constructor
  · intro i j hi hj hz
    rw [raisedTo_live] at hi hj
    rcases eq_or_ne i t with rfl | hit <;> rcases eq_or_ne j i with rfl | hji
    · rfl
    · have := hr.raisedTo_z_lt (ws.count - 1) ht hji hj
      rw [raisedTo_z_self] at hz
      omega
    · rfl
    · rcases eq_or_ne j t with rfl | hjt
      · have := hr.raisedTo_z_lt (ws.count - 1) ht hit hi
        rw [raisedTo_z_self] at hz
        omega
      · apply hr.inj i j hi hj
        have h₁ := hr.raisedTo_lt_iff (ws.count - 1) ht hit hjt hi hj
        have h₂ := hr.raisedTo_lt_iff (ws.count - 1) ht hjt hit hj hi
        omega
  · intro i hi
    rw [raisedTo_live] at hi
    rw [raisedTo_count]
    rcases eq_or_ne i t with rfl | hit
    · rw [raisedTo_z_self]
      omega
    · have := hr.raisedTo_z_lt (ws.count - 1) ht hit hi
      omega
  · intro v hv
    rw [raisedTo_count] at hv
    rcases Nat.lt_or_ge (v + 1) ws.count with hlt | hge
    · obtain ⟨j, hj, -, hzj⟩ := hr.raisedTo_full (ws.count - 1) (t := t) hlt
      exact ⟨j, by rw [raisedTo_live, hj], hzj⟩
    · exact ⟨t, by rw [raisedTo_live, ht], by rw [raisedTo_z_self]; omega⟩

end raise

end Windows

namespace Windows

variable {ws ws' : Windows} {f : WindowId} {i j t : Slot}

theorem live_of_isOpen (h : ws.isOpen i = true) : ws.live i = true := by
  simp only [isOpen, live, decide_eq_true_eq] at h ⊢
  rw [h]
  decide

/-- `f` is the id of the open window with the highest z, or 0 when no window is open. -/
def FocusTop (ws : Windows) (f : WindowId) : Prop :=
  (∃ m, ws.isOpen m = true ∧ (∀ j, ws.isOpen j = true → ws.z j ≤ ws.z m) ∧ f = (ws m).id) ∨
    ((∀ j, ws.isOpen j = false) ∧ f = 0)

theorem highestOpenWindow_top (ws : Windows) : ws.FocusTop ws.highestOpenWindow := by
  rw [highestOpenWindow]
  cases h : scanBest ws.isOpen (fun i j => decide (ws.z i > ws.z j)) slots with
  | none =>
    exact Or.inr ⟨fun j => (scanBest_eq_none _).mp h j (mem_slots j), rfl⟩
  | some m =>
    obtain ⟨-, hm, hmax⟩ := scanBest_some (by simp)
      (fun a b c hab hbc => by simp only [decide_eq_true_eq] at *; omega) _ h
    refine Or.inl ⟨m, hm, ?_, rfl⟩
    intro j hj
    simpa using hmax j (mem_slots j) hj

def SameBut (ws ws' : Windows) (t : Slot) : Prop :=
  ∀ i, i ≠ t → ws' i = { ws i with z := ws'.z i }

theorem SameBut.live (h : SameBut ws ws' t) (hi : i ≠ t) : ws'.live i = ws.live i := by
  rw [Windows.live, h i hi]
  rfl

theorem SameBut.isOpen (h : SameBut ws ws' t) (hi : i ≠ t) : ws'.isOpen i = ws.isOpen i := by
  rw [Windows.isOpen, h i hi]
  rfl

theorem SameBut.id (h : SameBut ws ws' t) (hi : i ≠ t) : (ws' i).id = (ws i).id := by
  rw [h i hi]

theorem SameBut.update (w : Window) : SameBut ws (Function.update ws t w) t := by
  intro i hi
  rw [z, Function.update_of_ne hi]

theorem SameBut.trans {ws'' : Windows} (h : SameBut ws ws' t) (h' : SameBut ws' ws'' t) :
    SameBut ws ws'' t := by
  intro i hi
  rw [h' i hi, h i hi]

theorem raisedTo_entry (z : Nat) (i : Slot) :
    ws.raisedTo t z i = { ws i with z := (ws.raisedTo t z).z i } := by
  rw [Windows.z, raisedTo]
  split
  · next h => rw [h]
  · split <;> rfl

theorem closeGap_entry (gap : Nat) (i : Slot) :
    ws.closeGap gap i = { ws i with z := (ws.closeGap gap).z i } := by
  rw [Windows.z, closeGap]
  split <;> rfl

theorem raised_same : SameBut ws (ws.raised t) t := fun i _ => raisedTo_entry _ i

theorem closeGap_same (gap : Nat) : SameBut ws (ws.closeGap gap) t :=
  fun i _ => closeGap_entry gap i

theorem DistinctIds.sameBut (h : DistinctIds ws) (hs : SameBut ws ws' t)
    (ht : ws'.live t = true → (ws' t).id ≠ 0 ∧
      ∀ i, i ≠ t → ws.live i = true → (ws i).id ≠ (ws' t).id) : DistinctIds ws' := by
  -- the ids stay distinct when the entry `t` is the only one that changes and its id is free
  constructor
  · intro i hi
    rcases eq_or_ne i t with rfl | hne
    · exact (ht hi).1
    · rw [hs.live hne] at hi
      rw [hs.id hne]
      exact h.ne_zero i hi
  · intro i j hi hj hid
    rcases eq_or_ne i t with rfl | hit <;> rcases eq_or_ne j i with rfl | hji
    · rfl
    · rw [hs.live hji] at hj
      rw [hs.id hji] at hid
      exact absurd hid.symm ((ht hi).2 j hji hj)
    · rfl
    · rw [hs.live hit] at hi
      rw [hs.id hit] at hid
      rcases eq_or_ne j t with rfl | hjt
      · exact absurd hid ((ht hj).2 i hit hi)
      · rw [hs.live hjt] at hj
        rw [hs.id hjt] at hid
        exact h.inj i j hi hj hid

theorem FocusTop.sameBut (h : ws.FocusTop f) (hs : SameBut ws ws' t) (hf : f ≠ (ws t).id)
    (ht : ws'.isOpen t = false)
    (hle : ∀ i j, i ≠ t → j ≠ t → ws.isOpen i = true → ws.isOpen j = true →
      ws.z i ≤ ws.z j → ws'.z i ≤ ws'.z j) : ws'.FocusTop f := by
  -- the focus stays on top when the entry `t` does not have it and is not open afterwards, and the order of
  -- the others is kept
  rcases h with ⟨m, hm, hmax, rfl⟩ | ⟨hnone, rfl⟩
  · have hmt : m ≠ t := by
      rintro rfl
      exact hf rfl
    refine Or.inl ⟨m, by rw [hs.isOpen hmt, hm], ?_, (hs.id hmt).symm⟩
    intro j hj
    have hjt : j ≠ t := by
      rintro rfl
      rw [ht] at hj
      cases hj
    rw [hs.isOpen hjt] at hj
    exact hle j m hjt hmt hj hm (hmax j hj)
  · refine Or.inr ⟨?_, rfl⟩
    intro j
    rcases eq_or_ne j t with rfl | hjt
    · exact ht
    · rw [hs.isOpen hjt, hnone j]

theorem count_close (ht : ws.live t = true) (hs : SameBut ws ws' t) (ht' : ws'.live t = false) :
    ws'.count + 1 = ws.count := by
  rw [count_eq_card, count_eq_card]
  have herase : (Finset.univ.filter fun i => ws'.live i = true) =
      (Finset.univ.filter fun i => ws.live i = true).erase t := by
    ext i
    rw [Finset.mem_erase, Finset.mem_filter, Finset.mem_filter]
    rcases eq_or_ne i t with rfl | hi
    · simp [ht']
    · simp [hs.live hi, hi]
  rw [herase, Finset.card_erase_add_one]
  simp [ht]

theorem count_open (ht : ws.live t = false) (hs : SameBut ws ws' t) (ht' : ws'.live t = true) :
    ws'.count = ws.count + 1 := by
  have hs' : SameBut ws' ws t := by
    intro i hi
    rw [hs i hi]
    rfl
  exact (count_close ht' hs' ht).symm

theorem Ranked.congr (h : Ranked ws) (hlive : ∀ i, ws'.live i = ws.live i)
    (hz : ∀ i, ws'.z i = ws.z i) : Ranked ws' := by
  have hcount : ws'.count = ws.count := by
    rw [count, count, show ws'.live = ws.live from funext hlive]
  constructor
  · intro i j hi hj
    rw [hz, hz]
    exact h.inj i j (hlive i ▸ hi) (hlive j ▸ hj)
  · intro i hi
    rw [hz, hcount]
    exact h.lt i (hlive i ▸ hi)
  · intro v hv
    obtain ⟨i, hi, rfl⟩ := h.full v (hcount ▸ hv)
    exact ⟨i, (hlive i).trans hi, hz i⟩

theorem Ranked.push (h : Ranked ws) (ht : ws.live t = false) (hs : SameBut ws ws' t)
    (hlivet : ws'.live t = true) (hzt : ws'.z t = ws.count) (hzi : ∀ i, i ≠ t → ws'.z i = ws.z i) :
    Ranked ws' := by
  have hcount := count_open ht hs hlivet
  constructor
  · intro i j hi hj hij
    rcases eq_or_ne i t with rfl | hit <;> rcases eq_or_ne j i with rfl | hji
    · rfl
    · rw [hs.live hji] at hj
      have := h.lt j hj
      rw [hzt, hzi j hji] at hij
      omega
    · rfl
    · rw [hs.live hit] at hi
      rw [hzi i hit] at hij
      have := h.lt i hi
      rcases eq_or_ne j t with rfl | hjt
      · omega
      · rw [hs.live hjt] at hj
        rw [hzi j hjt] at hij
        exact h.inj i j hi hj hij
  · intro i hi
    rw [hcount]
    rcases eq_or_ne i t with rfl | hit
    · omega
    · rw [hs.live hit] at hi
      have := h.lt i hi
      rw [hzi i hit]
      omega
  · intro v hv
    rcases Nat.lt_or_ge v ws.count with hlt | hge
    · obtain ⟨i, hi, rfl⟩ := h.full v hlt
      have hit : i ≠ t := by
        rintro rfl
        rw [ht] at hi
        cases hi
      exact ⟨i, by rw [hs.live hit, hi], hzi i hit⟩
    · exact ⟨t, hlivet, by omega⟩

theorem Ranked.gapped (h : Ranked ws) (ht : ws.live t = true) (hs : SameBut ws ws' t)
    (ht' : ws'.live t = false) (hz : ∀ i, ws'.z i = ws.z i) : Gapped ws' (ws.z t) := by
  have hne : ∀ i, ws'.live i = true → i ≠ t ∧ ws.live i = true := by
    intro i hi
    have hit : i ≠ t := by
      rintro rfl
      rw [ht'] at hi
      cases hi
    exact ⟨hit, (hs.live hit).symm.trans hi⟩
  constructor
  · intro i hi
    rw [hz]
    exact (h.lt i (hne i hi).2).trans_le (count_le ws)
  · intro i hi v hv hvt
    rw [hz] at hv
    obtain ⟨j, hj, rfl⟩ := h.full v (hv.trans_lt (h.lt i (hne i hi).2))
    have hjt : j ≠ t := by
      rintro rfl
      exact hvt rfl
    exact ⟨j, (hs.live hjt).trans hj, hz j⟩
  · intro i hi
    rw [hz]
    exact fun heq => (hne i hi).1 (h.inj i t (hne i hi).2 ht heq)
  · intro i j hi hj _ heq
    rw [hz, hz] at heq
    exact h.inj i j (hne i hi).2 (hne j hj).2 heq

theorem closeGap_live (gap : Nat) : (ws.closeGap gap).live i = ws.live i := by
  rw [live, live, closeGap_entry]

theorem closeGap_z (gap : Nat) (hi : ws.live i = true) :
    (ws.closeGap gap).z i = if gap < ws.z i then ws.z i - 1 else ws.z i := by
  rw [z, closeGap]
  simp only [hi, true_and]
  split <;> rfl

theorem Gapped.closeGap_lt_iff {gap : Nat} (h : Gapped ws gap) (hi : ws.live i = true)
    (hj : ws.live j = true) :
    (ws.closeGap gap).z i < (ws.closeGap gap).z j ↔ ws.z i < ws.z j := by
  have hgi := h.ne i hi
  have hgj := h.ne j hj
  rw [closeGap_z gap hi, closeGap_z gap hj]
  split <;> split <;> omega

theorem Ranked.close (h : Ranked ws) (ht : ws.live t = true) (hs : SameBut ws ws' t)
    (ht' : ws'.live t = false) (hz : ∀ i, ws'.z i = ws.z i) : Ranked (ws'.closeGap (ws.z t)) := by
  have hg := h.gapped ht hs ht' hz
  have hcount : (ws'.closeGap (ws.z t)).count + 1 = ws.count := by
    apply count_close ht (hs.trans (closeGap_same _))
    rw [closeGap_live]
    exact ht'
  have hlive : ∀ i, ws'.live i = true → ws.live i = true := by
    intro i hi
    rcases eq_or_ne i t with rfl | hit
    · exact ht
    · exact (hs.live hit).symm.trans hi
  constructor
  · intro i j hi hj heq
    rw [closeGap_live] at hi hj
    apply h.inj i j (hlive i hi) (hlive j hj)
    rw [← hz i, ← hz j]
    have h₁ := hg.closeGap_lt_iff hi hj
    have h₂ := hg.closeGap_lt_iff hj hi
    omega
  · intro i hi
    rw [closeGap_live] at hi
    have hne := hg.ne i hi
    have hlt := h.lt i (hlive i hi)
    have htlt := h.lt t ht
    rw [closeGap_z _ hi, hz] at *
    split <;> omega
  · intro v hv
    by_cases hlow : v < ws.z t
    · obtain ⟨j, hj, hzj⟩ := h.full v (by omega)
      have hjt : j ≠ t := by
        rintro rfl
        omega
      have hj' := (hs.live hjt).trans hj
      refine ⟨j, (closeGap_live _).trans hj', ?_⟩
      rw [closeGap_z _ hj', hz, if_neg (by omega), hzj]
    · obtain ⟨j, hj, hzj⟩ := h.full (v + 1) (by omega)
      have hjt : j ≠ t := by
        rintro rfl
        omega
      have hj' := (hs.live hjt).trans hj
      refine ⟨j, (closeGap_live _).trans hj', ?_⟩
      rw [closeGap_z _ hj', hz, if_pos (by omega), hzj, Nat.add_sub_cancel]

end Windows

end Linux95.Gui
