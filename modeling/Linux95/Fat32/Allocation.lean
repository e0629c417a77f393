import Linux95.Fat32.Chains

/-! `allocate_chain`: the lowest free clusters, linked in ascending order, and what is left of them when
the drive refuses a request on the way. -/

namespace Linux95.Fat32
open Base Storage Write

def endMark : Nat := 0x0FFFFFFF

def chainValue : List Nat → Nat → Option Nat
  | [], _ => none
  | [x], c => if c = x then some endMark else none
  | x :: y :: l, c => if c = x then some y else chainValue (y :: l) c

def Patch.linked (l : List Nat) : Patch := fun _ c => chainValue l c

def isFree (g : BpbGeometry) (d : Disk) (c : Nat) : Bool := fat28 (fatEntry g d 0 c) = 0

def freeAmong (g : BpbGeometry) (d : Disk) (n : Nat) : List Nat :=
  (List.range' (g.clusterCount - n + 2) n).filter (isFree g d)

def freeClusters (g : BpbGeometry) (d : Disk) : List Nat := (List.range' 2 g.clusterCount).filter (isFree g d)

section ChainValue
variable {l : List Nat} {c v : Nat}

theorem chainValue_cons (x : Nat) (l : List Nat) (c : Nat) :
    chainValue (x :: l) c = if c = x then some (l.headD endMark) else chainValue l c := by
  cases l with
  | nil => rfl
  | cons y l => rfl

theorem mem_of_chainValue (h : chainValue l c = some v) : c ∈ l := by
  induction l with
  | nil => cases h
  | cons x l ih =>
    rw [chainValue_cons] at h
    split_ifs at h with heq
    · rw [heq]
      exact List.mem_cons_self
    · exact List.mem_cons_of_mem x (ih h)

theorem chainValue_of_notMem (h : c ∉ l) : chainValue l c = none := by
  cases hv : chainValue l c with
  | none => rfl
  | some v => exact absurd (mem_of_chainValue hv) h

theorem exists_chainValue (h : c ∈ l) : ∃ v, chainValue l c = some v := by
  induction l with
  | nil => cases h
  | cons x l ih =>
    rw [chainValue_cons]
    by_cases heq : c = x
    · exact ⟨_, if_pos heq⟩
    · rw [if_neg heq]
      exact ih ((List.mem_cons.mp h).resolve_left heq)

theorem chainValue_mem (h : chainValue l c = some v) : v = endMark ∨ v ∈ l := by
  induction l with
  | nil => cases h
  | cons x l ih =>
    rw [chainValue_cons] at h
    split_ifs at h with heq
    · rw [← Option.some.inj h]
      cases l with
      | nil => exact Or.inl rfl
      | cons y l => exact Or.inr (List.mem_cons_of_mem x List.mem_cons_self)
    · rcases ih h with h | h
      · exact Or.inl h
      · exact Or.inr (List.mem_cons_of_mem x h)

theorem chainValue_concat (l : List Nat) (x y c : Nat) (hnodup : (l ++ [x, y]).Nodup) :
    chainValue (l ++ [x, y]) c =
      if c = x then some y else if c = y then some endMark else chainValue (l ++ [x]) c := by
  induction l with
  | nil =>
    show chainValue [x, y] c = _
    rw [chainValue_cons, chainValue_cons]
    show _ = if c = x then some y else if c = y then some endMark else chainValue [x] c
    rw [chainValue_cons]
    split_ifs <;> rfl
  | cons z l ih =>
    rw [List.cons_append, List.nodup_cons] at hnodup
    rw [List.cons_append, List.cons_append, chainValue_cons, chainValue_cons, ih hnodup.2]
    have hhead : (l ++ [x, y]).headD endMark = (l ++ [x]).headD endMark := by
      cases l <;> rfl
    rw [hhead]
    by_cases hz : c = z
    · have hx : c ≠ x := by
        rintro rfl
        exact hnodup.1 (by rw [← hz]; simp)
      have hy : c ≠ y := by
        rintro rfl
        exact hnodup.1 (by rw [← hz]; simp)
      rw [if_pos hz, if_neg hx, if_neg hy, if_pos hz]
    · rw [if_neg hz, if_neg hz]

end ChainValue

section Links
variable {g : BpbGeometry} {n : Nat} {d d' : Disk} {c v : Nat} {l : List Nat}

theorem linkOf_congr {raw raw' : Nat} (h : fat28 raw = fat28 raw') : linkOf g raw = linkOf g raw' := by
  unfold linkOf
  rw [h]

theorem fat28_of_lt (h : v < 2 ^ 28) : fat28 v = v := Nat.mod_eq_of_lt h

theorem linkOf_endMark (g : BpbGeometry) : linkOf g endMark = some none := by
  have hkind : classifyFatEntry (fat28 endMark) = .endOfChain := by decide
  unfold linkOf
  rw [hkind]
  rfl

theorem linkOf_zero (g : BpbGeometry) : linkOf g 0 = none := rfl

variable (hg : g.Sound n)
include hg

theorem valid_lt (hc : validCluster g c = true) : c < 0x0FFFFFF0 := by
  have hv := validCluster_iff.mp hc
  have hcount := hg.countLt
  omega

theorem linkOf_cluster (hc : validCluster g c = true) : linkOf g c = some (some c) := by
  have hlt := valid_lt hg hc
  have hv := validCluster_iff.mp hc
  have hlow : fat28 c = c := fat28_of_lt (by omega)
  have hkind : classifyFatEntry c = .next := by
    unfold classifyFatEntry
    dsimp only
    rw [hlow, if_neg (by omega), if_neg (by omega), if_neg (by omega), if_neg (by omega),
      if_neg (by omega)]
  unfold linkOf
  rw [hlow, hkind]
  exact if_pos hc

omit hg in
theorem entryValue_endMark : entryValue g endMark := ⟨Or.inr (Or.inr (by decide)), by decide⟩

theorem entryValue_cluster (hc : validCluster g c = true) : entryValue g c :=
  ⟨Or.inr (Or.inl hc), by have := valid_lt hg hc; omega⟩

theorem link_patchFat_some {p : Patch} (hc : validCluster g c = true) (h : p 0 c = some v) :
    link g (patchFat g p d) c = linkOf g v := by
  unfold link
  rw [if_pos hc, fatEntry_patchFat hg p d hc hg.fatCountPos, h]
  apply linkOf_congr
  show fat28 (fatEntry g d 0 c / 2 ^ 28 * 2 ^ 28 + v % 2 ^ 28) = fat28 v
  unfold fat28
  omega

theorem fat28_patchFat {p : Patch} {k : Nat} (hc : validCluster g c = true) (hk : k < g.fatCount)
    (hv : v < 2 ^ 28) (h : p k c = some v) : fat28 (fatEntry g (patchFat g p d) k c) = v := by
  rw [fatEntry_patchFat hg p d hc hk, h]
  show fat28 (fatEntry g d k c / 2 ^ 28 * 2 ^ 28 + v % 2 ^ 28) = v
  unfold fat28
  omega

theorem chainValue_entryValue (hl : ∀ x ∈ l, validCluster g x = true) (h : chainValue l c = some v) :
    entryValue g v := by
  rcases chainValue_mem h with rfl | hmem
  · exact entryValue_endMark
  · exact entryValue_cluster hg (hl v hmem)

theorem chain_of_values {p : Patch} {x : Nat} (hvalid : ∀ y ∈ x :: l, validCluster g y = true)
    (hnodup : (x :: l).Nodup) (hp : ∀ y ∈ x :: l, p 0 y = chainValue (x :: l) y) :
    Chain g (patchFat g p d) x (x :: l) := by
  induction l generalizing x with
  | nil =>
    have hx := hvalid x List.mem_cons_self
    have hvalue : p 0 x = some endMark := by
      rw [hp x List.mem_cons_self, chainValue_cons, if_pos rfl]
      rfl
    exact .last ((link_patchFat_some hg hx hvalue).trans (linkOf_endMark g))
  | cons y l ih =>
    have hx := hvalid x List.mem_cons_self
    have hy := hvalid y (List.mem_cons_of_mem x List.mem_cons_self)
    have hvalue : p 0 x = some y := by
      rw [hp x List.mem_cons_self, chainValue_cons, if_pos rfl]
      rfl
    refine .next ((link_patchFat_some hg hx hvalue).trans (linkOf_cluster hg hy)) ?_
    apply ih (fun z hz => hvalid z (List.mem_cons_of_mem x hz)) (List.nodup_cons.mp hnodup).2
    intro z hz
    have hne : z ≠ x := by
      rintro rfl
      exact (List.nodup_cons.mp hnodup).1 hz
    rw [hp z (List.mem_cons_of_mem x hz), chainValue_cons, if_neg hne]

theorem HalfWritten.link_cases (h : HalfWritten g d c v d') (hc : validCluster g c = true) :
    (∀ x, x ≠ c → link g d' x = link g d x) ∧ (link g d' c = link g d c ∨ link g d' c = linkOf g v) := by
  obtain ⟨p, rfl, hp⟩ := h
  constructor
  · intro x hx
    apply link_patchFat hg
    cases hpx : p 0 x with
    | none => rfl
    | some w => exact absurd (hp 0 x w hpx).1 hx
  · cases hpc : p 0 c with
    | none => exact Or.inl (link_patchFat hg hpc)
    | some w =>
      have hold : fat28 (fatEntry g d 0 c) < 2 ^ 28 := Nat.mod_lt _ (by decide)
      rcases (hp 0 c w hpc).2 with rfl | hw
      · exact Or.inr (link_patchFat_some hg hc hpc)
      · left
        rw [link_patchFat_some hg hc hpc, hw]
        unfold link
        rw [if_pos hc]
        exact linkOf_congr (fat28_of_lt hold)

end Links

section Within
variable {g : BpbGeometry} {n : Nat} {d : Disk} {c : Nat} {l : List Nat} {S : Nat → Prop}

theorem freeChain_within (hg : g.Sound n) {first : Nat} (dev : Device) (hfirst : first = 0 ∨ S first)
    (hclosed : ∀ x y, S x → link g dev.sectors x = some (some y) → S y) :
    wp (freeChain (some g) first)
      (fun _ dev' => PatchedBy g dev.sectors (fun _ c _ => S c) dev'.sectors)
      (fun e dev' => e ≠ .noSpace ∧ PatchedBy g dev.sectors (fun _ c _ => S c) dev'.sectors) dev := by
  have hinside : ∀ {l}, Freeable g dev.sectors g.clusterCount first l → ∀ x ∈ l, S x := by
    intro l hl
    rcases hfirst with rfl | hfirst
    · have hvalid := validCluster_iff.mp (hl.1.valid 0 hl.1.head_mem)
      omega
    · exact hl.1.within hfirst hclosed
  refine wp_mono (freeChain_wp hg first dev) ?_ ?_
  · rintro _ dev' (⟨-, hsec⟩ | ⟨l, hl, hsec⟩)
    · rw [hsec]
      exact .refl _ _ _
    · rw [hsec]
      apply patchedBy_patchFat
      intro k x w hw
      apply hinside hl
      by_contra hnot
      exact nomatch (if_neg hnot).symm.trans hw
  · rintro e dev' ⟨he, hcases⟩
    refine ⟨he, ?_⟩
    rcases hcases with hsec | ⟨l, hl, hpatched⟩
    · rw [hsec]
      exact .refl _ _ _
    · exact hpatched.mono fun _ x _ hx => hinside hl x hx

theorem discardChain_wp {first : Nat} {Q : Except Status Unit → Device → Prop} {dev : Device}
    (hzero : first = 0 → Q (.ok ()) dev)
    (hfree : first ≠ 0 → wp (freeChain (some g) first) (fun _ => Q (.ok ())) (fun e => Q (.error e)) dev) :
    wp (discardChain (some g) first) Q (fun _ _ => False) dev := by
  unfold discardChain
  refine wp_ite (fun hne => ?_) fun hne => wp_pure (hzero (not_not.mp hne))
  exact wp_attempt (hfree hne) (fun _ _ h => h) (fun _ _ h => h)

end Within

section Building
variable {g : BpbGeometry} {n : Nat} {d : Disk}

/-- The loop of `allocate_chain` with `n` candidates left: `acc` has been claimed and linked. -/
structure Building (g : BpbGeometry) (d : Disk) (n : Nat) (acc : List Nat) (first previous : Nat) :
    Prop where
  fits : n ≤ g.clusterCount
  first : first = acc.headD 0
  previous : previous = acc.getLastD 0
  nodup : acc.Nodup
  free : ∀ x ∈ acc, isFree g d x = true
  below : ∀ x ∈ acc, 2 ≤ x ∧ x < g.clusterCount - n + 2

variable {acc : List Nat} {first previous : Nat}

theorem Building.next (h : Building g d (n + 1) acc first previous) :
    validCluster g (g.clusterCount - (n + 1) + 2) = true ∧ g.clusterCount - (n + 1) + 2 ∉ acc := by
  -- the candidate is new: the clusters of the chain are below it
  have hfits := h.fits
  refine ⟨validCluster_iff.mpr ⟨by omega, by omega⟩, fun hmem => ?_⟩
  have hlt := h.below _ hmem
  omega

theorem Building.valid (h : Building g d n acc first previous) : ∀ x ∈ acc, validCluster g x = true := by
  intro x hx
  have hx' := h.below x hx
  exact validCluster_iff.mpr ⟨hx'.1, by omega⟩

theorem Building.skip (h : Building g d (n + 1) acc first previous) :
    Building g d n acc first previous where
  fits := by have := h.fits; omega
  first := h.first
  previous := h.previous
  nodup := h.nodup
  free := h.free
  below := by
    intro x hx
    have hx' := h.below x hx
    have := h.fits
    omega

theorem Building.first_cases (h : Building g d n acc first previous) :
    first = 0 ∧ previous = 0 ∧ acc = [] ∨
      first ∈ acc ∧ previous ∈ acc ∧ first ≠ 0 ∧ previous ≠ 0 := by
  rcases List.eq_nil_or_concat acc with hnil | ⟨rest, x, hconcat⟩
  · have hfirst := h.first
    have hprevious := h.previous
    rw [hnil] at hfirst hprevious
    exact Or.inl ⟨hfirst, hprevious, hnil⟩
  · have hprevious : previous = x := by rw [h.previous, hconcat]; simp
    have hx : previous ∈ acc := by rw [hprevious, hconcat]; simp
    have hhead : first ∈ acc := by
      rw [h.first, hconcat]
      cases rest with
      | nil => exact List.mem_cons_self
      | cons y rest => exact List.mem_cons_self
    have h0 := h.below _ hx
    have h1 := h.below _ hhead
    exact Or.inr ⟨hhead, hx, by omega, by omega⟩

def Free (g : BpbGeometry) (d : Disk) (c : Nat) : Prop :=
  validCluster g c = true ∧ isFree g d c = true

theorem Building.linked_free (h : Building g d n acc first previous) :
    PatchedBy g d (fun _ c _ => Free g d c) (patchFat g (.linked acc) d) := by
  apply patchedBy_patchFat
  intro k c w hw
  have hmem := mem_of_chainValue hw
  exact ⟨h.valid c hmem, h.free c hmem⟩

variable {size : Nat} (hg : g.Sound size)
include hg

theorem Building.chain (h : Building g d n acc first previous) (hne : first ≠ 0) (p : Patch)
    (hp : ∀ x ∈ acc, p 0 x = chainValue acc x) : Chain g (patchFat g p d) first acc := by
  obtain ⟨hzero, -, -⟩ | ⟨hmem, -, -, -⟩ := h.first_cases
  · exact absurd hzero hne
  · have hfirst := h.first
    cases hacc : acc with
    | nil =>
      rw [hacc] at hmem
      cases hmem
    | cons x l =>
      rw [hacc] at hfirst hp
      obtain rfl : first = x := hfirst
      exact chain_of_values hg (hacc ▸ h.valid) (hacc ▸ h.nodup) hp

theorem Building.agree (h : Building g d n acc first previous) {x : Nat} (hx : x ∈ acc) :
    Agree g (patchFat g (.linked acc) d) x := by
  obtain ⟨v, hv⟩ := exists_chainValue hx
  have hlt := (chainValue_entryValue hg h.valid hv).2
  intro k hk
  rw [fat28_patchFat hg (h.valid x hx) hk hlt hv,
    fat28_patchFat hg (h.valid x hx) hg.fatCountPos hlt hv]

theorem Building.closed (h : Building g d n acc first previous) {x y : Nat} (hx : x ∈ acc)
    (hlink : link g (patchFat g (.linked acc) d) x = some (some y)) : y ∈ acc := by
  obtain ⟨v, hv⟩ := exists_chainValue hx
  rw [link_patchFat_some hg (h.valid x hx) hv] at hlink
  rcases chainValue_mem hv with rfl | hmem
  · rw [linkOf_endMark] at hlink
    cases hlink
  · rw [linkOf_cluster hg (h.valid v hmem)] at hlink
    obtain rfl := Option.some.inj (Option.some.inj hlink)
    exact hmem

theorem Building.cleared (hagree : ∀ c, validCluster g c = true → Agree g d c)
    (h : Building g d n acc first previous) :
    patchFat g (.clear acc) (patchFat g (.linked acc) d) = d := by
  rw [patchFat_patchFat]
  apply patchFat_same hg
  intro k c v hk hv
  by_cases hmem : c ∈ acc
  · have hclear : Patch.clear acc k c = some 0 := if_pos hmem
    rw [hclear] at hv
    obtain rfl : 0 = v := Option.some.inj hv
    have hfree : fat28 (fatEntry g d 0 c) = 0 := of_decide_eq_true (h.free c hmem)
    rw [hagree c (h.valid c hmem) k hk, hfree]
  · have hclear : Patch.clear acc k c = none := if_neg hmem
    have hlinked : Patch.linked acc k c = none := chainValue_of_notMem hmem
    rw [hclear, hlinked] at hv
    cases hv

theorem Building.discard (hm : g.mirroringEnabled = true)
    (hagree : ∀ c, validCluster g c = true → Agree g d c)
    (h : Building g d n acc first previous) {dev : Device} (hdev : dev.sectors = patchFat g (.linked acc) d) :
    wp (discardChain (some g) first)
      (fun r dev' => (r = .ok () → dev'.sectors = d) ∧ (dev.Ready g.totalSectors → r = .ok ()) ∧
        PatchedBy g d (fun _ c _ => Free g d c) dev'.sectors) (fun _ _ => False) dev := by
  apply discardChain_wp
  · intro hzero
    have hnil : acc = [] := by
      rcases h.first_cases with ⟨-, -, hnil⟩ | ⟨-, -, hne, -⟩
      · exact hnil
      · exact absurd hzero hne
    have hsame : dev.sectors = d := by
      rw [hdev, hnil]
      exact patchFat_nothing g d
    refine ⟨fun _ => hsame, fun _ => rfl, ?_⟩
    rw [hsame]
    exact .refl _ _ _
  · intro hne
    have hchain := h.chain hg hne (.linked acc) fun _ _ => rfl
    rw [← hdev] at hchain
    have hfreeable : Freeable g dev.sectors g.clusterCount first acc :=
      ⟨hchain, fun x hx => hdev ▸ h.agree hg hx, hchain.length_le⟩
    have hdoes : Does g.totalSectors (freeChain (some g) first) dev.sectors (.ok ())
        (patchFat g (.clear acc) dev.sectors) := by
      rcases does_freeChain hg hm dev.sectors first with
        ⟨hzero, -⟩ | ⟨l, -, hl, hdoes⟩ | ⟨-, hnone, -⟩
      · exact absurd hzero hne
      · rw [← hl.1.unique hchain]
        exact hdoes
      · exact absurd ⟨acc, hfreeable⟩ hnone
    have hlinked : PatchedBy g d (fun _ c _ => Free g d c) dev.sectors := by
      rw [hdev]
      exact h.linked_free
    have hinside : ∀ l, Freeable g dev.sectors g.clusterCount first l → ∀ x ∈ l, Free g d x := by
      intro l hl x hx
      rw [hl.1.unique hchain] at hx
      exact ⟨h.valid x hx, h.free x hx⟩
    refine wp_mono (wp_and (freeChain_wp hg first dev) (hdoes.wp_ready rfl)) ?_ ?_
    · rintro _ dev' ⟨⟨hzero, -⟩ | ⟨l, hl, hsec⟩, -⟩
      · exact absurd hzero hne
      · have hback : dev'.sectors = d := by
          rw [hsec, hl.1.unique hchain, hdev, h.cleared hg hagree]
        refine ⟨fun _ => hback, fun _ => rfl, ?_⟩
        rw [hback]
        exact .refl _ _ _
    · rintro e dev' ⟨⟨-, hcases⟩, hnot⟩
      refine ⟨fun hok => (nomatch hok), fun hready => absurd hready hnot, ?_⟩
      rcases hcases with hsec | ⟨l, hl, hpatched⟩
      · rw [hsec]
        exact hlinked
      · exact hlinked.trans (hpatched.mono fun _ x _ hx => hinside l hl x hx)

omit hg in
theorem Building.extend (h : Building g d (n + 1) acc first previous)
    (hfree : isFree g d (g.clusterCount - (n + 1) + 2) = true) :
    Building g d n (acc ++ [g.clusterCount - (n + 1) + 2])
      (if previous ≠ 0 then first else g.clusterCount - (n + 1) + 2) (g.clusterCount - (n + 1) + 2) := by
  have hfits := h.fits
  constructor
  case fits => omega
  case first =>
    rcases h.first_cases with ⟨-, hprevious, hnil⟩ | ⟨hmem, -, -, hprevious⟩
    · rw [if_neg (not_not.mpr hprevious), hnil]
      rfl
    · rw [if_pos hprevious, h.first]
      cases hacc : acc with
      | nil =>
        rw [hacc] at hmem
        cases hmem
      | cons x l => rfl
  case previous => simp
  case nodup =>
    rw [List.nodup_append]
    refine ⟨h.nodup, List.nodup_singleton _, fun x hx y hy => ?_⟩
    rw [List.mem_singleton.mp hy]
    have hx' := h.below x hx
    omega
  case free =>
    intro x hx
    rcases List.mem_append.mp hx with hx | hx
    · exact h.free x hx
    · rw [List.mem_singleton.mp hx]
      exact hfree
  case below =>
    intro x hx
    rcases List.mem_append.mp hx with hx | hx
    · have hx' := h.below x hx
      omega
    · rw [List.mem_singleton.mp hx]
      omega

omit hg in
theorem Building.extended (h : Building g d (n + 1) acc first previous)
    (hnodup : (acc ++ [g.clusterCount - (n + 1) + 2]).Nodup) :
    patchFat g (.linked (acc ++ [g.clusterCount - (n + 1) + 2])) d =
      if previous ≠ 0 then
        patchFat g (.entry previous (g.clusterCount - (n + 1) + 2))
          (patchFat g (.entry (g.clusterCount - (n + 1) + 2) endMark) (patchFat g (.linked acc) d))
      else patchFat g (.entry (g.clusterCount - (n + 1) + 2) endMark) (patchFat g (.linked acc) d) := by
  generalize g.clusterCount - (n + 1) + 2 = candidate at hnodup ⊢
  rcases List.eq_nil_or_concat acc with hnil | ⟨rest, x, hconcat⟩
  · have hprevious : previous = 0 := by rw [h.previous, hnil]; rfl
    rw [if_neg (not_not.mpr hprevious), hnil, patchFat_patchFat]
    congr 1
    funext k c
    unfold Patch.linked Patch.entry
    rw [List.nil_append, chainValue_cons]
    split_ifs <;> rfl
  · have hprevious : previous = x := by rw [h.previous, hconcat]; simp
    have hx := h.below x (by rw [hconcat]; simp)
    rw [if_pos (by omega), patchFat_patchFat, patchFat_patchFat]
    congr 1
    funext k c
    rw [hconcat, List.concat_eq_append, List.append_assoc] at hnodup ⊢
    unfold Patch.linked Patch.entry
    rw [hprevious]
    show chainValue (rest ++ [x, candidate]) c = _
    rw [chainValue_concat rest x candidate c hnodup]
    split_ifs <;> rfl

end Building

section Refused
variable {g : BpbGeometry} {size : Nat} (hg : g.Sound size) {n : Nat} {d : Disk} {acc : List Nat}
  {first previous : Nat}
include hg

theorem writeFatEntry_agreed (hm : g.mirroringEnabled = true) {c v : Nat} (hc : validCluster g c = true)
    (hv : entryValue g v) {dev : Device} (hagree : Agree g dev.sectors c) :
    wp (writeFatEntry (some g) c v)
      (fun _ dev' => dev'.sectors = patchFat g (.entry c v) dev.sectors ∧
        (dev.Ready g.totalSectors → dev'.Ready g.totalSectors))
      (fun e dev' => e ≠ .noSpace ∧ HalfWritten g dev.sectors c v dev'.sectors ∧
        ¬ dev.Ready g.totalSectors) dev := by
  have hdoes := does_writeFatEntry hg hm hc hv hagree
  refine wp_mono (wp_and (writeFatEntry_wp hg c v dev) (hdoes.wp_ready rfl)) ?_ ?_
  · rintro _ dev' ⟨⟨hsec, -⟩, hready⟩
    exact ⟨hsec, hready⟩
  · rintro e dev' ⟨⟨he, hcases⟩, hnot⟩
    refine ⟨he, ?_, hnot⟩
    rcases hcases with hsec | ⟨-, -, -, hhalf⟩
    · rw [hsec]
      exact .refl _ _ _
    · exact hhalf

omit hg in
theorem HalfWritten.free {d₀ d' : Disk} {c v : Nat} (h : HalfWritten g d c v d') (hc : Free g d₀ c) :
    PatchedBy g d (fun _ x _ => Free g d₀ x) d' :=
  h.mono fun _ _ _ hx => hx.1 ▸ hc

omit hg in
theorem halfWritten_entry (g : BpbGeometry) (d : Disk) (c v : Nat) :
    HalfWritten g d c v (patchFat g (.entry c v) d) :=
  patchedBy_patchFat fun _ _ _ hw => ⟨(entry_eq_some hw).1, Or.inl (entry_eq_some hw).2⟩

theorem writeFatEntry_half (c v : Nat) (dev : Device) :
    wp (writeFatEntry (some g) c v) (fun _ dev' => HalfWritten g dev.sectors c v dev'.sectors)
      (fun _ dev' => HalfWritten g dev.sectors c v dev'.sectors) dev := by
  refine wp_mono (writeFatEntry_wp hg c v dev) ?_ ?_
  · rintro _ dev' ⟨hsec, -⟩
    rw [hsec]
    exact halfWritten_entry g dev.sectors c v
  · rintro e dev' ⟨-, hsec | ⟨-, -, -, hhalf⟩⟩
    · rw [hsec]
      exact .refl _ _ _
    · exact hhalf

theorem Building.discard_candidate (h : Building g d n acc first previous) {c v : Nat} (hc : Free g d c)
    (hnot : c ∉ acc) {dev : Device} (hdev : HalfWritten g (patchFat g (.linked acc) d) c v dev.sectors) :
    wp (discardChain (some g) first)
      (fun _ dev' => PatchedBy g d (fun _ x _ => Free g d x) dev'.sectors) (fun _ _ => False) dev := by
  have hpatched : PatchedBy g d (fun _ x _ => Free g d x) dev.sectors :=
    h.linked_free.trans (hdev.free hc)
  apply discardChain_wp
  · exact fun _ => hpatched
  · intro hne
    have hfirst : first ∈ acc := by
      rcases h.first_cases with ⟨hzero, -⟩ | ⟨hmem, -⟩
      · exact absurd hzero hne
      · exact hmem
    have hclosed : ∀ x y, x ∈ acc → link g dev.sectors x = some (some y) → y ∈ acc := by
      intro x y hx hlink
      have hxc : x ≠ c := by
        rintro rfl
        exact hnot hx
      rw [(hdev.link_cases hg hc.1).1 x hxc] at hlink
      exact h.closed hg hx hlink
    have hwithin := freeChain_within (S := (· ∈ acc)) hg dev (Or.inr hfirst) hclosed
    have hmember : ∀ x, x ∈ acc → Free g d x := fun x hx => ⟨h.valid x hx, h.free x hx⟩
    refine wp_mono hwithin (fun _ _ hout => ?_) (fun _ _ hout => ?_)
    · exact hpatched.trans (hout.mono fun _ x _ => hmember x)
    · exact hpatched.trans (hout.2.mono fun _ x _ => hmember x)

omit hg in
theorem statusAfter_ne {r : Except Status Unit} {status : Status} (h : status ≠ .noSpace) :
    statusAfter r status ≠ .noSpace := by
  cases r with
  | ok u => exact h
  | error e => exact fun heq => (nomatch heq)

/-- The cleanup after the candidate could not be linked: whatever is left of the chain, it is made of
claimed clusters. -/
theorem Building.unwind (h : Building g d n acc first previous) (hprevious : previous ≠ 0) {c : Nat}
    (hc : Free g d c) (hnot : c ∉ acc) {status : Status} (hstatus : status ≠ .noSpace) {dev : Device}
    (hdev : HalfWritten g (patchFat g (.entry c endMark) (patchFat g (.linked acc) d)) previous c
      dev.sectors) :
    wp (do
        let discard ← (writeFatEntry (some g) c 0).attempt
        let cleanup ← (freeChain (some g) first).attempt
        (throw (statusAfter discard (statusAfter cleanup status)) : Io Nat))
      (fun _ _ => False)
      (fun e dev' => e ≠ .noSpace ∧ PatchedBy g d (fun _ x _ => Free g d x) dev'.sectors) dev := by
  obtain ⟨hfirst, hmem⟩ : first ∈ acc ∧ previous ∈ acc := by
    rcases h.first_cases with ⟨-, hzero, -⟩ | ⟨hfirst, hmem, -⟩
    · exact absurd hzero hprevious
    · exact ⟨hfirst, hmem⟩
  have hmember : ∀ x, x ∈ acc ∨ x = c → Free g d x := by
    rintro x (hx | rfl)
    · exact ⟨h.valid x hx, h.free x hx⟩
    · exact hc
  have hpatched : PatchedBy g d (fun _ x _ => Free g d x) dev.sectors := by
    refine (h.linked_free.trans ?_).trans (hdev.free (hmember previous (Or.inl hmem)))
    exact (halfWritten_entry g _ c endMark).free hc
  have hne : ∀ x, x ∈ acc → x ≠ c := by
    rintro x hx rfl
    exact hnot hx
  -- The links before the entry of the candidate is cleared.
  have hlinks : ∀ x y, x ∈ acc ∨ x = c → link g dev.sectors x = some (some y) → y ∈ acc ∨ y = c := by
    have hcases := hdev.link_cases hg (h.valid previous hmem)
    have hold : ∀ x, x ∈ acc →
        link g (patchFat g (.entry c endMark) (patchFat g (.linked acc) d)) x =
          link g (patchFat g (.linked acc) d) x :=
      fun x hx => link_patchFat hg (if_neg (hne x hx))
    have hend : link g (patchFat g (.entry c endMark) (patchFat g (.linked acc) d)) c = some none := by
      rw [link_patchFat_some hg hc.1 (if_pos rfl), linkOf_endMark]
    rintro x y (hx | rfl) hlink
    · by_cases hxp : x = previous
      · rw [hxp] at hlink
        rcases hcases.2 with heq | heq
        · rw [heq, hold previous hmem] at hlink
          exact Or.inl (h.closed hg hmem hlink)
        · rw [heq, linkOf_cluster hg hc.1] at hlink
          exact Or.inr (Option.some.inj (Option.some.inj hlink)).symm
      · rw [hcases.1 x hxp, hold x hx] at hlink
        exact Or.inl (h.closed hg hx hlink)
    · rw [hcases.1 x (hne previous hmem).symm, hend] at hlink
      cases hlink
  refine wp_bind (wp_attempt (writeFatEntry_half hg c 0 dev)
    (Q := fun _ dev' => HalfWritten g dev.sectors c 0 dev'.sectors) (fun _ _ hout => hout)
    (fun _ _ hout => hout)) ?_ (fun _ _ hout => hout)
  intro discard dev' hdev'
  have hcases := hdev'.link_cases hg hc.1
  -- freeing the chain stays inside it, also where the candidate is still linked
  have hclosed : ∀ x y, x ∈ acc ∨ x = c → link g dev'.sectors x = some (some y) → y ∈ acc ∨ y = c := by
    intro x y hx hlink
    by_cases hxc : x = c
    · rw [hxc] at hlink
      rcases hcases.2 with heq | heq
      · rw [heq] at hlink
        exact hlinks c y (Or.inr rfl) hlink
      · rw [heq, linkOf_zero] at hlink
        cases hlink
    · rw [hcases.1 x hxc] at hlink
      exact hlinks x y hx hlink
  have hwithin := freeChain_within (S := fun x => x ∈ acc ∨ x = c) hg dev' (Or.inr (Or.inl hfirst)) hclosed
  have hall := hpatched.trans (hdev'.free hc)
  refine wp_bind (wp_attempt hwithin
    (Q := fun _ dev'' => PatchedBy g d (fun _ x _ => Free g d x) dev''.sectors)
    (fun _ _ hout => hall.trans (hout.mono fun _ x _ => hmember x))
    (fun _ _ hout => hall.trans (hout.2.mono fun _ x _ => hmember x))) ?_ (fun _ _ hout => hout)
  intro cleanup dev'' hdev''
  exact wp_throw ⟨statusAfter_ne (statusAfter_ne hstatus), hdev''⟩

end Refused

section Loop
variable {g : BpbGeometry} {size : Nat} (hg : g.Sound size) {d : Disk}

theorem freeAmong_succ (d : Disk) {n : Nat} (h : n + 1 ≤ g.clusterCount) :
    freeAmong g d (n + 1) =
      if isFree g d (g.clusterCount - (n + 1) + 2) then
        (g.clusterCount - (n + 1) + 2) :: freeAmong g d n
      else freeAmong g d n := by
  unfold freeAmong
  rw [List.range'_succ, List.filter_cons, show g.clusterCount - (n + 1) + 2 + 1 = g.clusterCount - n + 2 by omega]

def Allocated (g : BpbGeometry) (d : Disk) (n : Nat) (acc : List Nat) (need first : Nat) (d' : Disk) : Prop :=
  need ≤ (freeAmong g d n).length ∧ first = (acc ++ (freeAmong g d n).take need).headD 0 ∧
    d' = patchFat g (.linked (acc ++ (freeAmong g d n).take need)) d

def NotAllocated (g : BpbGeometry) (d : Disk) (n need : Nat) (ready : Prop) (e : Status) (d' : Disk) : Prop :=
  e = .noSpace ∧ (freeAmong g d n).length < need ∧ d' = d ∨
    e ≠ .noSpace ∧ ¬ ready ∧ PatchedBy g d (fun _ c _ => Free g d c) d'

section Answers
variable {n need : Nat} {acc : List Nat} {first previous candidate : Nat} {d' : Disk} {ready : Prop} {e : Status}

theorem Building.allocated (h : Building g d n acc first previous) (hsec : d' = patchFat g (.linked acc) d) :
    Allocated g d n acc 0 first d' := by
  refine ⟨Nat.zero_le _, ?_, ?_⟩
  · rw [List.take_zero, List.append_nil]
    exact h.first
  · rw [List.take_zero, List.append_nil]
    exact hsec

theorem Allocated.skip (hsucc : freeAmong g d (n + 1) = freeAmong g d n) (h : Allocated g d n acc need first d') :
    Allocated g d (n + 1) acc need first d' := by
  unfold Allocated at h ⊢
  rw [hsucc]
  exact h

theorem NotAllocated.skip (hsucc : freeAmong g d (n + 1) = freeAmong g d n) (h : NotAllocated g d n need ready e d') :
    NotAllocated g d (n + 1) need ready e d' := by
  unfold NotAllocated at h ⊢
  rw [hsucc]
  exact h

theorem Allocated.claim (hsucc : freeAmong g d (n + 1) = candidate :: freeAmong g d n) (hneed : need ≠ 0)
    (h : Allocated g d n (acc ++ [candidate]) (need - 1) first d') : Allocated g d (n + 1) acc need first d' := by
  obtain ⟨hle, hfirst, hsec⟩ := h
  have htake : (freeAmong g d (n + 1)).take need = candidate :: (freeAmong g d n).take (need - 1) := by
    rw [hsucc, ← Nat.succ_pred_eq_of_ne_zero hneed, List.take_succ_cons]
    rfl
  rw [List.append_assoc, List.singleton_append, ← htake] at hfirst hsec
  refine ⟨?_, hfirst, hsec⟩
  rw [hsucc, List.length_cons]
  omega

theorem NotAllocated.claim (hsucc : freeAmong g d (n + 1) = candidate :: freeAmong g d n)
    (h : NotAllocated g d n (need - 1) ready e d') : NotAllocated g d (n + 1) need ready e d' := by
  rcases h with ⟨he, hlt, hsec⟩ | hfailed
  · refine Or.inl ⟨he, ?_, hsec⟩
    rw [hsucc, List.length_cons]
    omega
  · exact Or.inr hfailed

theorem NotAllocated.mono {ready' : Prop} (hready : ready' → ready) (h : NotAllocated g d n need ready e d') :
    NotAllocated g d n need ready' e d' :=
  h.imp id fun hfailed => ⟨hfailed.1, fun hr => hfailed.2.1 (hready hr), hfailed.2.2⟩

end Answers

include hg

theorem value_readFatEntry (hm : g.mirroringEnabled = true) {c : Nat} (hc : validCluster g c = true) (d : Disk) :
    value (readFatEntry (some g) c) d = .ok (fat28 (fatEntry g d 0 c)) := by
  have hread := value_readEntry hg hc hg.fatCountPos d
  rw [← hg.mirrored hm] at hread
  show value (readEntry g c g.activeFat >>= fun raw => pure (fat28 raw)) d = _
  rw [value_bind_ok (reads_readEntry _ _) hread, hg.mirrored hm]
  rfl

theorem claim_wp (hm : g.mirroringEnabled = true) (hagree : ∀ c, validCluster g c = true → Agree g d c)
    {n : Nat} {acc : List Nat} {first previous candidate : Nat} {dev : Device} {Q : Nat → Device → Prop}
    {E : Status → Device → Prop} (next : Nat → Io Nat)
    (h : Building g d n acc first previous) (hc : Free g d candidate) (hnot : candidate ∉ acc)
    (hextended : patchFat g (.linked (acc ++ [candidate])) d =
      if previous ≠ 0 then
        patchFat g (.entry previous candidate)
          (patchFat g (.entry candidate endMark) (patchFat g (.linked acc) d))
      else patchFat g (.entry candidate endMark) (patchFat g (.linked acc) d))
    (hdev : dev.sectors = patchFat g (.linked acc) d)
    (hE : ∀ e dev', e ≠ .noSpace → ¬ dev.Ready g.totalSectors →
      PatchedBy g d (fun _ c _ => Free g d c) dev'.sectors → E e dev')
    (hnext : ∀ dev', dev'.sectors = patchFat g (.linked (acc ++ [candidate])) d →
      (dev.Ready g.totalSectors → dev'.Ready g.totalSectors) →
      wp (next (if previous ≠ 0 then first else candidate)) Q E dev') :
    wp (do
        match ← (writeFatEntry (some g) candidate 0x0FFFFFFF).attempt with
        | .error status => do
          let cleanup ← discardChain (some g) first
          throw (statusAfter cleanup status)
        | .ok () =>
          if previous ≠ 0 then
            match ← (writeFatEntry (some g) previous candidate).attempt with
            | .error status => do
              let discard ← (writeFatEntry (some g) candidate 0).attempt
              let cleanup ← (freeChain (some g) first).attempt
              throw (statusAfter discard (statusAfter cleanup status))
            | .ok () => next first
          else next candidate) Q E dev := by
  have hcopies : Agree g dev.sectors candidate := by
    rw [hdev]
    refine (agree_patchFat hg hc.1 fun k _ => ?_).mpr (hagree candidate hc.1)
    exact chainValue_of_notMem hnot
  refine wp_bind (wp_attempt (writeFatEntry_agreed hg hm hc.1 entryValue_endMark hcopies)
    (Q := fun r dev' => r = .ok () ∧ dev'.sectors = patchFat g (.entry candidate endMark) dev.sectors ∧
        (dev.Ready g.totalSectors → dev'.Ready g.totalSectors) ∨
      (∃ e, r = .error e ∧ e ≠ .noSpace) ∧ HalfWritten g dev.sectors candidate endMark dev'.sectors ∧
        ¬ dev.Ready g.totalSectors) (E := fun _ _ => False)
    (fun _ _ hout => Or.inl ⟨rfl, hout⟩) (fun e _ hout => Or.inr ⟨⟨e, rfl, hout.1⟩, hout.2⟩)) ?_
    (fun _ _ hout => hout.elim)
  -- the mark is written everywhere, or the candidate has the old or the new entry in each copy
  rintro r dev' (⟨rfl, hsec, hready⟩ | ⟨⟨e, rfl, he⟩, hhalf, hnotready⟩)
  · dsimp only
    refine wp_ite (fun hprevious => ?_) fun hprevious => ?_
    · rw [if_pos hprevious] at hextended
      have hmem : previous ∈ acc := by
        rcases h.first_cases with ⟨-, hzero, -⟩ | ⟨-, hmem, -⟩
        · exact absurd hzero hprevious
        · exact hmem
      have hne : previous ≠ candidate := by
        rintro rfl
        exact hnot hmem
      have hcopies' : Agree g dev'.sectors previous := by
        rw [hsec, hdev]
        refine (agree_patchFat hg (h.valid previous hmem) fun k _ => ?_).mpr (h.agree hg hmem)
        exact if_neg hne
      refine wp_bind (wp_attempt (writeFatEntry_agreed hg hm (h.valid previous hmem)
          (entryValue_cluster hg hc.1) hcopies')
        (Q := fun r dev'' => r = .ok () ∧
            dev''.sectors = patchFat g (.entry previous candidate) dev'.sectors ∧
            (dev'.Ready g.totalSectors → dev''.Ready g.totalSectors) ∨
          (∃ e, r = .error e ∧ e ≠ .noSpace) ∧
            HalfWritten g dev'.sectors previous candidate dev''.sectors ∧ ¬ dev'.Ready g.totalSectors)
        (E := fun _ _ => False)
        (fun _ _ hout => Or.inl ⟨rfl, hout⟩) (fun e _ hout => Or.inr ⟨⟨e, rfl, hout.1⟩, hout.2⟩)) ?_
        (fun _ _ hout => hout.elim)
      rintro r dev'' (⟨rfl, hsec', hready'⟩ | ⟨⟨e, rfl, he⟩, hhalf, hnotready⟩)
      · have hstep := hnext dev'' (by rw [hsec', hsec, hdev, hextended]) fun hr => hready' (hready hr)
        rw [if_pos hprevious] at hstep
        exact hstep
      · rw [hsec, hdev] at hhalf
        refine wp_mono (h.unwind hg hprevious hc hnot he hhalf) (fun _ _ hout => hout.elim) ?_
        exact fun e' dev3 hout => hE e' dev3 hout.1 (fun hr => hnotready (hready hr)) hout.2
    · rw [if_neg hprevious] at hextended
      have hstep := hnext dev' (by rw [hsec, hdev, hextended]) hready
      rw [if_neg hprevious] at hstep
      exact hstep
  · rw [hdev] at hhalf
    refine wp_bind (h.discard_candidate hg hc hnot hhalf) ?_ (fun _ _ hout => hout.elim)
    exact fun r dev'' hout => wp_throw (hE _ dev'' (statusAfter_ne he) hnotready hout)

theorem value_unlinked (hm : g.mirroringEnabled = true) {candidate : Nat} (hcandidate : validCluster g candidate = true)
    (hnot : candidate ∉ acc) : value (readFatEntry (some g) candidate) (patchFat g (.linked acc) d) =
      .ok (fat28 (fatEntry g d 0 candidate)) := by
  have hsame : Patch.linked acc 0 candidate = none := chainValue_of_notMem hnot
  rw [value_readFatEntry hg hm hcandidate, fatEntry_patchFat hg _ _ hcandidate hg.fatCountPos, hsame]

theorem readCandidate_wp (hm : g.mirroringEnabled = true) {candidate : Nat} (hcandidate : validCluster g candidate = true)
    (hnot : candidate ∉ acc) {dev : Device} (hdev : dev.sectors = patchFat g (.linked acc) d) :
    wp (readFatEntry (some g) candidate).attempt
      (fun r dev' => dev'.sectors = dev.sectors ∧
        (r = .ok (fat28 (fatEntry g d 0 candidate)) ∧ (dev.Ready g.totalSectors → dev'.Ready g.totalSectors) ∨
          (∃ e, r = .error e ∧ e ≠ .noSpace) ∧ ¬ dev.Ready g.totalSectors)) (fun _ _ => False) dev := by
  -- the candidate's entry is read, or the drive has refused it
  have hvalue := value_unlinked hg hm hcandidate hnot (d := d)
  rw [← hdev] at hvalue
  refine wp_attempt ((reads_readFatEntry candidate).wp dev) (fun r dev' hout => ?_) fun e dev' hout => ⟨hout.1, Or.inr ?_⟩
  · exact ⟨hout.2.1, Or.inl ⟨hout.1.symm.trans hvalue, hout.2.2.ready⟩⟩
  · rcases hout.2.2 with hbad | ⟨rfl, hready⟩
    · rw [hbad] at hvalue
      cases hvalue
    · exact ⟨⟨_, rfl, by decide⟩, hready⟩

theorem exhausted_wp (hm : g.mirroringEnabled = true) (hagree : ∀ c, validCluster g c = true → Agree g d c)
    {acc : List Nat} {need first previous : Nat} (hneed : need ≠ 0) {dev : Device} (h : Building g d 0 acc first previous)
    (hdev : dev.sectors = patchFat g (.linked acc) d) :
    wp (do
        let cleanup ← discardChain (some g) first
        (throw (statusAfter cleanup .noSpace) : Io Nat))
      (fun _ _ => False) (fun e dev' => NotAllocated g d 0 need (dev.Ready g.totalSectors) e dev'.sectors) dev := by
  refine wp_bind (h.discard hg hm hagree hdev) ?_ (fun _ _ hout => hout.elim)
  rintro r dev' ⟨hback, hready, hfree⟩
  apply wp_throw
  cases r with
  | ok u => exact Or.inl ⟨rfl, Nat.pos_of_ne_zero hneed, hback rfl⟩
  | error e =>
    refine Or.inr ⟨?_, fun hr => (nomatch hready hr), hfree⟩
    show Status.ioError ≠ .noSpace
    decide

theorem allocateLoop_wp (hm : g.mirroringEnabled = true)
    (hagree : ∀ c, validCluster g c = true → Agree g d c) :
    ∀ n acc need first previous (dev : Device), Building g d n acc first previous →
      dev.sectors = patchFat g (.linked acc) d →
      wp (allocateLoop (some g) g n need first previous)
        (fun r dev' => Allocated g d n acc need r dev'.sectors)
        (fun e dev' => NotAllocated g d n need (dev.Ready g.totalSectors) e dev'.sectors) dev := by
  intro n
  induction n with
  | zero =>
    intro acc need first previous dev h hdev
    unfold allocateLoop
    refine wp_ite (fun hneed => wp_pure (hneed ▸ h.allocated hdev)) fun hneed => ?_
    exact wp_mono (exhausted_wp hg hm hagree hneed h hdev) (fun _ _ hout => hout.elim) fun _ _ hout => hout
  | succ n ih =>
    intro acc need first previous dev h hdev
    obtain ⟨hcandidate, hnot⟩ := h.next
    have hsucc := freeAmong_succ d h.fits
    unfold allocateLoop
    refine wp_ite (fun hneed => wp_pure (hneed ▸ h.allocated hdev)) fun hneed => ?_
    have hextend := fun hfree => h.extend hfree
    have hextended := h.extended
    dsimp only
    generalize g.clusterCount - (n + 1) + 2 = candidate at hcandidate hnot hsucc hextend hextended ⊢
    refine wp_bind (readCandidate_wp hg hm hcandidate hnot hdev) ?_ (fun _ _ hout => hout.elim)
    rintro r dev' ⟨hsec, ⟨rfl, hready⟩ | ⟨⟨e, rfl, he⟩, hready⟩⟩
    swap
    · refine wp_bind (h.discard hg hm hagree (hsec.trans hdev)) ?_ (fun _ _ hout => hout.elim)
      rintro r dev'' ⟨-, -, hfree⟩
      exact wp_throw (Or.inr ⟨statusAfter_ne he, hready, hfree⟩)
    rw [hdev] at hsec
    refine wp_ite (fun hused => ?_) fun hunused => ?_
    · rw [show isFree g d candidate = false from decide_eq_false hused, if_neg Bool.false_ne_true] at hsucc
      exact wp_mono (ih acc need first previous dev' h.skip hsec) (fun _ _ hout => hout.skip hsucc)
        fun _ _ hout => (hout.mono hready).skip hsucc
    · have hfree : isFree g d candidate = true := decide_eq_true (not_not.mp hunused)
      rw [hfree, if_pos rfl] at hsucc
      have hbuilding := hextend hfree
      refine claim_wp hg hm hagree (fun first => allocateLoop (some g) g n (need - 1) first candidate) h
        ⟨hcandidate, hfree⟩ hnot (hextended hbuilding.nodup) hsec ?_ ?_
      · exact fun e dev'' he hnotready hpatched => Or.inr ⟨he, fun hr => hnotready (hready hr), hpatched⟩
      · intro dev'' hsec'' hready''
        exact wp_mono (ih _ (need - 1) _ candidate dev'' hbuilding hsec'') (fun _ _ hout => hout.claim hsucc hneed)
          fun _ _ hout => (hout.mono fun hr => hready'' (hready hr)).claim hsucc

theorem allocateChain_wp (hm : g.mirroringEnabled = true)
    (hagree : ∀ c, validCluster g c = true → Agree g d c) (need : Nat) (dev : Device) (hdev : dev.sectors = d) :
    wp (allocateChain (some g) need)
      (fun r dev' => Allocated g d g.clusterCount [] need r dev'.sectors)
      (fun e dev' => NotAllocated g d g.clusterCount need (dev.Ready g.totalSectors) e dev'.sectors) dev := by
  have hnothing : patchFat g (.linked []) d = d := patchFat_nothing g d
  have hlength : (freeAmong g d g.clusterCount).length ≤ g.clusterCount := by
    unfold freeAmong
    exact (List.length_filter_le _ _).trans (List.length_range').le
  unfold allocateChain
  rw [geometryForWrite_bind, if_pos hm]
  refine wp_ite (fun hzero => wp_pure ?_) fun _ => wp_ite (fun hmany => wp_throw ?_) fun _ => ?_
  · rw [hzero]
    refine ⟨Nat.zero_le _, rfl, ?_⟩
    rw [List.take_zero, List.append_nil, hnothing]
    exact hdev
  · exact Or.inl ⟨rfl, by omega, hdev⟩
  · refine allocateLoop_wp hg hm hagree g.clusterCount [] need 0 0 dev ?_ (hdev.trans hnothing.symm)
    exact ⟨le_refl _, rfl, rfl, List.nodup_nil, fun _ hx => (nomatch hx), fun _ hx => (nomatch hx)⟩

end Loop

/-- `first_cluster` after a call on a mirrored volume: it is cleared first, and again on every path
that fails. -/
def outputCluster : Except Status Nat → Nat
  | .ok first => first
  | .error _ => 0

/-- `d'` is `d` with these clusters linked to a chain in every copy and nothing else changed. -/
structure ChainAllocated (g : BpbGeometry) (d d' : Disk) (chain : List Nat) (first : Nat) : Prop where
  head : first = chain.headD 0
  linked : chain ≠ [] → Chain g d' first chain
  entries : ∀ k c, k < g.fatCount → validCluster g c = true →
    fatEntry g d' k c =
      match chainValue chain c with
      | some v => fatEntry g d k c / 2 ^ 28 * 2 ^ 28 + v
      | none => fatEntry g d k c
  bytes : ∀ lba j, d' lba j ≠ d lba j → ∃ k c, k < g.fatCount ∧ c ∈ chain ∧ lba = g.fatLba k c ∧
    c % 128 * 4 ≤ j.val ∧ j.val < c % 128 * 4 + 4

section Exact
variable {g : BpbGeometry} {size : Nat} (hg : g.Sound size) {d : Disk}

theorem freeAmong_all (g : BpbGeometry) (d : Disk) : freeAmong g d g.clusterCount = freeClusters g d := by
  unfold freeAmong freeClusters
  rw [Nat.sub_self]

theorem mem_freeClusters {c : Nat} (h : c ∈ freeClusters g d) : Free g d c := by
  obtain ⟨hrange, hfree⟩ := List.mem_filter.mp h
  have hlt := List.mem_range'_1.mp hrange
  exact ⟨validCluster_iff.mpr ⟨hlt.1, by omega⟩, hfree⟩

theorem freeClusters_nodup (g : BpbGeometry) (d : Disk) : (freeClusters g d).Nodup :=
  List.Nodup.filter _ List.nodup_range'

include hg

theorem chainAllocated_take (need : Nat) :
    ChainAllocated g d (patchFat g (.linked ((freeClusters g d).take need)) d)
      ((freeClusters g d).take need) (((freeClusters g d).take need).headD 0) := by
  have hvalid : ∀ x ∈ (freeClusters g d).take need, validCluster g x = true :=
    fun x hx => (mem_freeClusters (List.mem_of_mem_take hx)).1
  have hnodup : ((freeClusters g d).take need).Nodup := (freeClusters_nodup g d).sublist (List.take_sublist _ _)
  generalize (freeClusters g d).take need = l at hvalid hnodup ⊢
  constructor
  case head => rfl
  case linked =>
    intro hne
    cases l with
    | nil => exact absurd rfl hne
    | cons x l => exact chain_of_values (p := .linked (x :: l)) hg hvalid hnodup fun _ _ => rfl
  case entries =>
    intro k c hk hc
    rw [fatEntry_patchFat hg _ _ hc hk]
    show (match chainValue l c with
      | some v => _
      | none => _) = _
    cases hv : chainValue l c with
    | none => rfl
    | some v =>
      have hlt := (chainValue_entryValue hg hvalid hv).2
      show fatEntry g d k c / 2 ^ 28 * 2 ^ 28 + v % 2 ^ 28 = fatEntry g d k c / 2 ^ 28 * 2 ^ 28 + v
      rw [Nat.mod_eq_of_lt hlt]
  case bytes =>
    intro lba j hchanged
    obtain ⟨hlo, hhi, hpatch⟩ := patchFat_changed hchanged
    obtain ⟨hlba, hoffset⟩ := fatLba_copyOf hlo j.isLt
    have hmem : g.clusterOf lba j.val ∈ l := by
      by_contra hnot
      exact hpatch (chainValue_of_notMem hnot)
    exact ⟨_, _, copyOf_lt hg ⟨hlo, hhi⟩, hmem, hlba.symm, by omega, by omega⟩

theorem patchedBy_used {d' : Disk} (h : PatchedBy g d (fun _ c _ => Free g d c) d') {k c : Nat}
    (hk : k < g.fatCount) (hc : validCluster g c = true) (hused : isFree g d c = false) :
    fatEntry g d' k c = fatEntry g d k c := by
  obtain ⟨p, rfl, hp⟩ := h
  rw [fatEntry_patchFat hg p d hc hk]
  cases hv : p k c with
  | none => rfl
  | some v =>
    have hfree := (hp k c v hv).2
    rw [hused] at hfree
    cases hfree

end Exact

/-- `allocate_chain` takes exactly the lowest free clusters, or it gives up with the disk as it was; and
whatever the drive refuses, entries in use stay. -/
theorem allocateChain_exact (sector : Sector) (diskSectors : Nat) (g : BpbGeometry)
    (h : parseBpb sector diskSectors = some g) (hm : g.mirroringEnabled = true) (dev : Device)
    (hagree : ∀ c, validCluster g c = true → Agree g dev.sectors c) (need : Nat) :
    (dev.Ready g.totalSectors →
      ((∃ first, ((allocateChain (some g) need).exec dev).1 = .ok first) ↔
        need ≤ (freeClusters g dev.sectors).length) ∧
      (need ≤ (freeClusters g dev.sectors).length →
        ∃ first, ((allocateChain (some g) need).exec dev).1 = .ok first ∧
          ChainAllocated g dev.sectors ((allocateChain (some g) need).exec dev).2.sectors
            ((freeClusters g dev.sectors).take need) first) ∧
      ((freeClusters g dev.sectors).length < need →
        ((allocateChain (some g) need).exec dev).1 = .error .noSpace ∧
        outputCluster ((allocateChain (some g) need).exec dev).1 = 0 ∧
        ((allocateChain (some g) need).exec dev).2.sectors = dev.sectors)) ∧
    (∀ k c, k < g.fatCount → validCluster g c = true → isFree g dev.sectors c = false →
      fatEntry g ((allocateChain (some g) need).exec dev).2.sectors k c = fatEntry g dev.sectors k c) ∧
    (((allocateChain (some g) need).exec dev).1 = .error .noSpace →
      ((allocateChain (some g) need).exec dev).2.sectors = dev.sectors) := by
  have hg := parseBpb_sound h
  have hall := freeAmong_all g dev.sectors
  obtain ⟨hok, herror⟩ := wp_iff.mp (allocateChain_wp hg hm hagree need dev rfl)
  cases hresult : ((allocateChain (some g) need).exec dev).1 with
  | ok first =>
    obtain ⟨hle, hfirst, hsec⟩ := hok first hresult
    rw [hall, List.nil_append] at hfirst hsec
    rw [hall] at hle
    rw [hsec]
    have hallocated := chainAllocated_take hg (d := dev.sectors) need
    refine ⟨fun _ => ⟨⟨fun _ => hle, fun _ => ⟨first, rfl⟩⟩, fun _ => ⟨first, rfl, ?_⟩,
      fun hlt => by omega⟩, ?_, fun hbad => (nomatch hbad)⟩
    · rw [hfirst]
      exact hallocated
    · intro k c hk hc hused
      refine patchedBy_used hg (patchedBy_patchFat fun k' c' w hw => ?_) hk hc hused
      exact mem_freeClusters (List.mem_of_mem_take (mem_of_chainValue hw))
  | error e =>
    rcases herror e hresult with ⟨rfl, hlt, hsec⟩ | ⟨he, hnotready, hpatched⟩
    · rw [hall] at hlt
      rw [hsec]
      refine ⟨fun _ => ⟨⟨fun hfirst => ?_, fun hle => by omega⟩, fun hle => by omega,
        fun _ => ⟨rfl, rfl, rfl⟩⟩, fun _ _ _ _ _ => rfl, fun _ => rfl⟩
      obtain ⟨first, hfirst⟩ := hfirst
      cases hfirst
    · refine ⟨fun hready => absurd hready hnotready, ?_, ?_⟩
      · exact fun k c hk hc hused => patchedBy_used hg hpatched hk hc hused
      · exact fun hbad => absurd (Except.error.inj hbad) he

theorem chainDisk_agree (c : Nat) (hc : validCluster smallGeometry c = true) :
    Agree smallGeometry chainDisk c := by
  have hv := validCluster_iff.mp hc
  have hcount : smallGeometry.clusterCount = 65530 := rfl
  have hsector : ∀ k, k < 2 →
      chainDisk (smallGeometry.fatLba k c) = if c / 128 = 0 then chainDisk 32 else Sector.zero := by
    intro k hk
    have hlba : smallGeometry.fatLba k c = 32 + k * 512 + c / 128 := rfl
    have hfirst : chainDisk 32 = chainDisk 544 := rfl
    rw [hlba]
    by_cases hzero : c / 128 = 0
    · rw [if_pos hzero, hzero]
      obtain rfl | rfl : k = 0 ∨ k = 1 := by omega
      · rfl
      · exact hfirst.symm
    · rw [if_neg hzero]
      exact if_neg (by omega)
  intro k hk
  unfold fatEntry
  rw [hsector k hk, hsector 0 (by decide)]

/-- Two clusters on a volume whose lowest free clusters are 5 and 6. -/
theorem allocateChain_exact_small :
    chainDevice.Ready smallGeometry.totalSectors ∧
    (∀ c, validCluster smallGeometry c = true → Agree smallGeometry chainDevice.sectors c) ∧
    ∃ first, ((allocateChain (some smallGeometry) 2).exec chainDevice).1 = .ok first := by
  have hready : chainDevice.Ready smallGeometry.totalSectors := ⟨⟨rfl, fun _ => rfl⟩, le_refl 66586⟩
  have hexact := (allocateChain_exact smallBoot 66586 smallGeometry parseBpb_smallBoot rfl chainDevice
    chainDisk_agree 2).1 hready
  refine ⟨hready, chainDisk_agree, hexact.1.mpr ?_⟩
  have hsub : [5, 6] ⊆ freeClusters smallGeometry chainDisk := by
    intro c hc
    have hcases : c = 5 ∨ c = 6 := by simpa using hc
    refine List.mem_filter.mpr ⟨List.mem_range'_1.mpr ?_, ?_⟩
    · have hcount : smallGeometry.clusterCount = 65530 := rfl
      omega
    · rcases hcases with rfl | rfl <;> decide +kernel
  exact (List.Nodup.subperm (by decide) hsub).length_le

end Linux95.Fat32
