import Linux95.Fat32.EntryEdits
import Linux95.Fat32.FileData

/-! What the operations check before they write: that a directory is empty, and that the chain of a file has
the length that its size asks for. -/

namespace Linux95.Fat32
open Base Storage Write

def idle (d : Disk) (slot : DirectorySlot) : Bool := slotDeleted d slot || isDotEntry (entryAt d slot)

def emptyScan (d : Disk) : List DirectorySlot → Option Bool
  | [] => some false
  | slot :: slots =>
    if !slotUsed d slot then some true
    else if !idle d slot then none
    else emptyScan d slots

section Scan
variable {d : Disk} {slot : DirectorySlot}

theorem emptySlots_eq (lba : Nat) (d : Disk) : ∀ n m,
    emptySlots (d lba) n (m * 32) = emptyScan d (slotsFrom lba m n)
  | 0, _ => rfl
  | n + 1, m => by
    have hrest := emptySlots_eq lba d n (m + 1)
    rw [Nat.succ_mul] at hrest
    unfold emptySlots slotsFrom
    rw [List.range'_succ, List.map_cons, emptyScan, slotUsed, idle, slotDeleted, entryAt]
    dsimp only
    rw [hrest]
    simp only [decide_not, Bool.not_not, decide_eq_true_eq, Bool.not_or, Bool.and_eq_true, Bool.not_eq_true',
      decide_eq_false_iff_not]
    rfl

theorem emptyScan_eq (d : Disk) : ∀ l,
    emptyScan d l = if (inUse d l).all (idle d) then some (!l.all (slotUsed d)) else none
  | [] => rfl
  | slot :: l => by
    have hrest := emptyScan_eq d l
    unfold inUse at hrest ⊢
    rw [emptyScan, hrest]
    cases hused : slotUsed d slot with
    | false =>
      rw [List.takeWhile_cons_of_neg (by rw [hused]; decide), List.all_cons, hused]
      rfl
    | true =>
      rw [List.takeWhile_cons_of_pos hused, List.all_cons, List.all_cons, hused]
      cases idle d slot <;> rfl

theorem emptyScan_append (d : Disk) (l' : List DirectorySlot) : ∀ l,
    emptyScan d (l ++ l') = (emptyScan d l).bind fun past => if past then some true else emptyScan d l'
  | [] => rfl
  | slot :: l => by
    rw [List.cons_append, emptyScan, emptyScan, emptyScan_append d l' l]
    cases slotUsed d slot with
    | false => rfl
    | true => cases idle d slot <;> rfl

theorem not_ordinary_of_idle (h : idle d slot = true) : ordinary (entryAt d slot) = false := by
  unfold ordinary
  rcases Bool.or_eq_true_iff.mp h with hdeleted | hdot
  · have hbyte : (entryAt d slot).byte 0 = 0xE5 := of_decide_eq_true hdeleted
    unfold liveShortEntry
    rw [hbyte]
    simp
  · rw [hdot, Bool.not_true, Bool.and_false]

theorem objectSlots_idle {g : BpbGeometry} {c : Nat} (h : (usedSlots g d c).all (idle d) = true) :
    objectSlots g d c = [] := by
  refine List.filter_eq_nil_iff.mpr fun slot hslot => ?_
  rw [not_ordinary_of_idle (List.all_eq_true.mp h slot hslot)]
  decide

end Scan

def emptyAnswer : Option Bool → Except Status Bool
  | none => .error .directoryNotEmpty
  | some past => .ok past

section Empty
variable {g : BpbGeometry} {n : Nat} (hg : g.Sound n) {d : Disk} {c : Nat} {l : List Nat}
include hg

theorem value_emptySectors (hc : validCluster g c = true) : ∀ m i, i + m = g.sectorsPerCluster →
    value (emptySectors g c m i) d = emptyAnswer (emptyScan d (sectorSlots g c i m))
  | 0, _, _ => rfl
  | m + 1, i, him => by
    have hi : i < g.sectorsPerCluster := by omega
    have hread : value (readSector (g.dataLba c i)) d = .ok (d (g.dataLba c i)) := rfl
    have hslots := emptySlots_eq (g.dataLba c i) d 16 0
    have hrest := value_emptySectors hc m (i + 1) (by omega)
    rw [Nat.zero_mul] at hslots
    unfold emptySectors sectorSlots
    rw [directoryLba_eq hg hc hi, List.range'_succ, List.flatMap_cons, emptyScan_append, ← hslots]
    dsimp only
    rw [value_bind_ok (.read (dataLba_bounds hg hc hi).2.1) hread]
    cases emptySlots (d (g.dataLba c i)) 16 0 with
    | none => rfl
    | some past =>
      cases past with
      | true => rfl
      | false => exact hrest

theorem value_emptyClusters (hl : Chain g d c l) (hagree : ∀ x ∈ l, Agree g d x) : ∀ m past, l.length ≤ m →
    value (emptyClusters g m c past) d =
      if past then .ok () else (emptyAnswer (emptyScan d (dirSlots g l))).map fun _ => () := by
  induction hl with
  | @last c hlink =>
    intro m past hm
    obtain ⟨m, rfl⟩ : ∃ k, m = k + 1 := ⟨m - 1, by rw [List.length_singleton] at hm; omega⟩
    have hnext := value_chainNext_agreed hg hlink (hagree c List.mem_cons_self)
    unfold emptyClusters
    rw [value_bind_ok (reads_chainNext c true) hnext, dirSlots_singleton]
    cases past with
    | true => rfl
    | false =>
      have hcluster := value_emptySectors hg (d := d) (link_valid hlink) g.sectorsPerCluster 0 (Nat.zero_add _)
      rw [show emptyCluster g c false = emptySectors g c g.sectorsPerCluster 0 from rfl,
        value_bind (reads_emptySectors _ _ _), hcluster]
      show _ = Except.map _ (emptyAnswer (emptyScan d (sectorSlots g c 0 g.sectorsPerCluster)))
      cases emptyScan d (sectorSlots g c 0 g.sectorsPerCluster) <;> rfl
  | @next c y l hlink hrest ih =>
    intro m past hm
    rw [List.length_cons] at hm
    obtain ⟨m, rfl⟩ : ∃ k, m = k + 1 := ⟨m - 1, by omega⟩
    have hnext := value_chainNext_agreed hg hlink (hagree c List.mem_cons_self)
    have ih := fun past => ih (fun x hx => hagree x (List.mem_cons_of_mem c hx)) m past (by omega)
    unfold emptyClusters
    rw [value_bind_ok (reads_chainNext c true) hnext, dirSlots_cons, emptyScan_append]
    cases past with
    | true => exact ih true
    | false =>
      have hcluster := value_emptySectors hg (d := d) (link_valid hlink) g.sectorsPerCluster 0 (Nat.zero_add _)
      rw [show emptyCluster g c false = emptySectors g c g.sectorsPerCluster 0 from rfl,
        value_bind (reads_emptySectors _ _ _), hcluster]
      show _ = Except.map _ (emptyAnswer ((emptyScan d (sectorSlots g c 0 g.sectorsPerCluster)).bind _))
      cases emptyScan d (sectorSlots g c 0 g.sectorsPerCluster) with
      | none => rfl
      | some past =>
        cases past with
        | true => exact ih true
        | false => exact ih false

theorem value_directoryIsEmpty (hl : Chain g d c l) (hagree : ∀ x ∈ l, Agree g d x) :
    value (directoryIsEmpty g c) d =
      if (usedSlots g d c).all (idle d) then .ok () else .error .directoryNotEmpty := by
  have hvalid := hl.valid c hl.head_mem
  unfold directoryIsEmpty
  rw [if_neg (by rw [hvalid]; decide), value_emptyClusters hg hl hagree _ _ hl.length_le, emptyScan_eq, usedSlots_chain hl]
  cases (inUse d (dirSlots g l)).all (idle d) <;> rfl

end Empty

section FileChains
variable {g : BpbGeometry} {n : Nat} (hg : g.Sound n) {d : Disk} {c size first : Nat} {l : List Nat} {e : Entry}
include hg

theorem clusterBytes_checked : checkedMulU32 g.sectorsPerCluster 512 = some g.clusterBytes := by
  have hle := hg.spcLe
  exact checkedMulU32_eq (by omega)

theorem fileClusterCount_eq (hsize : size < 2 ^ 32) :
    fileClusterCount size g.clusterBytes = (pure (fileClusters g size) : Io Nat) := by
  have hpos := clusterBytes_pos hg
  have hround : (size / g.clusterBytes + if size % g.clusterBytes ≠ 0 then 1 else 0) = fileClusters g size := by
    have hdiv := Nat.div_add_mod size g.clusterBytes
    have hlt := Nat.mod_lt size hpos
    unfold fileClusters
    rw [eq_comm, Nat.div_eq_iff hpos, Nat.add_mul, Nat.mul_comm]
    split_ifs with hrest <;> omega
  unfold fileClusterCount
  rw [if_neg (by omega), if_neg (by omega), hround]

theorem fileClusters_zero_iff : fileClusters g size = 0 ↔ size = 0 := by
  have hpos := clusterBytes_pos hg
  unfold fileClusters
  rw [Nat.div_eq_zero_iff]
  omega

theorem fileClusters_room : size ≤ fileClusters g size * g.clusterBytes := by
  have hpos := clusterBytes_pos hg
  have hdiv := Nat.div_add_mod (size + g.clusterBytes - 1) g.clusterBytes
  have hlt := Nat.mod_lt (size + g.clusterBytes - 1) hpos
  unfold fileClusters
  rw [Nat.mul_comm]
  omega

theorem value_validateLinks (hl : Chain g d c l) (hagree : ∀ x ∈ l, Agree g d x) :
    value (validateLinks g l.length c) d = .ok () := by
  induction hl with
  | @last c hlink =>
    have hnext := value_chainNext_agreed hg hlink (hagree c List.mem_cons_self)
    rw [List.length_singleton]
    unfold validateLinks
    rw [value_bind_ok (reads_chainNext c true) hnext]
    rfl
  | @next c y l hlink hrest ih =>
    have hnext := value_chainNext_agreed hg hlink (hagree c List.mem_cons_self)
    have hlength : l.length ≠ 0 := fun h => by
      rw [List.length_eq_zero_iff.mp h] at hrest
      exact absurd hrest.head_mem List.not_mem_nil
    rw [List.length_cons]
    unfold validateLinks
    rw [value_bind_ok (reads_chainNext c true) hnext, if_neg (by simp [hlength])]
    exact ih fun x hx => hagree x (List.mem_cons_of_mem c hx)

theorem value_validateFileChain (hholds : Holds g d first l) (hagree : ∀ x, validCluster g x = true → Agree g d x)
    (hzero : first = 0 ↔ le32 e.byte 28 = 0) (hlength : first ≠ 0 → l.length = fileClusters g (le32 e.byte 28)) :
    value (validateFileChain g e first) d = .ok () := by
  unfold validateFileChain
  rw [clusterBytes_checked hg]
  dsimp only
  rw [fileClusterCount_eq hg (le32_lt _ _), pure_bind]
  rcases hholds with ⟨hfirst, -⟩ | hl
  · have hcount : fileClusters g (le32 e.byte 28) = 0 := (fileClusters_zero_iff hg).mpr (hzero.mp hfirst)
    rw [hcount, hfirst]
    rfl
  · have hne := hl.first_ne
    have hcount : fileClusters g (le32 e.byte 28) ≠ 0 := fun h => hne (hzero.mpr ((fileClusters_zero_iff hg).mp h))
    have hle := hl.length_le
    have hvalid := hl.valid first hl.head_mem
    rw [if_neg, ← hlength hne]
    · exact value_validateLinks hg hl fun x hx => hagree x (hl.valid x hx)
    · rw [hlength hne] at hle
      rw [decide_eq_false hcount, decide_eq_false hne, hvalid]
      rintro (h | h | h)
      · exact h rfl
      · omega
      · exact absurd h.2 (by decide)

theorem value_validateDirectoryChain (hl : Chain g d first l) (hagree : ∀ x ∈ l, Agree g d x) :
    value (validateDirectoryChain g first) d = .ok () := by
  have hvalid := hl.valid first hl.head_mem
  unfold validateDirectoryChain
  rw [if_neg (by rw [hvalid]; decide)]
  rcases value_validateChain hg d g.clusterCount first with ⟨-, hvalue⟩ | ⟨hnot, -⟩
  · exact hvalue
  · exact absurd ⟨l, hl, hagree, hl.length_le⟩ hnot

end FileChains

end Linux95.Fat32
