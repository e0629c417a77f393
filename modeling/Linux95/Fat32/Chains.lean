import Mathlib.Order.Interval.Finset.Nat
import Linux95.Base.Paths
import Linux95.Fat32.FatTable

/-! Chains of the FAT, and `free_chain` on any FAT contents. -/

namespace Linux95.Fat32
open Base Storage Write

/-- The clusters of a chain in FAT copy 0: each links the next, and the last one has the end mark. -/
abbrev Chain (g : BpbGeometry) (d : Disk) : Nat → List Nat → Prop := Path (link g d)

def Patch.clear (l : List Nat) : Patch := fun _ c => if c ∈ l then some 0 else none

section Chain
variable {g : BpbGeometry} {d : Disk} {c : Nat} {l l' : List Nat}

theorem Chain.valid (h : Chain g d c l) : ∀ x ∈ l, validCluster g x = true := by
  intro x hx
  obtain ⟨r, hr⟩ := h.linked x hx
  exact link_valid hr

theorem path_length_le {next : Nat → Option (Option Nat)} (h : Path next c l)
    (hvalid : ∀ x r, next x = some r → validCluster g x = true) : l.length ≤ g.clusterCount := by
  -- a path has no more clusters than the volume
  have hsub : l.toFinset ⊆ Finset.Ico 2 (g.clusterCount + 2) := by
    intro x hx
    obtain ⟨r, hr⟩ := h.linked x (List.mem_toFinset.mp hx)
    have hv := validCluster_iff.mp (hvalid x r hr)
    exact Finset.mem_Ico.mpr ⟨hv.1, by omega⟩
  have hcard := Finset.card_le_card hsub
  rw [List.toFinset_card_of_nodup h.nodup, Nat.card_Ico] at hcard
  omega

theorem Chain.length_le (h : Chain g d c l) : l.length ≤ g.clusterCount :=
  path_length_le h fun _ _ => link_valid

end Chain

section Patched
variable {g : BpbGeometry} {n : Nat} (hg : g.Sound n) {p : Patch} {d : Disk} {c : Nat}
include hg

theorem link_patchFat (h : p 0 c = none) : link g (patchFat g p d) c = link g d c := by
  unfold link
  by_cases hc : validCluster g c = true
  · rw [if_pos hc, if_pos hc, fatEntry_patchFat hg p d hc hg.fatCountPos, h]
  · rw [if_neg hc, if_neg hc]

theorem agree_patchFat (hc : validCluster g c = true) (h : ∀ k, k < g.fatCount → p k c = none) :
    Agree g (patchFat g p d) c ↔ Agree g d c := by
  have hentry : ∀ k, k < g.fatCount → fatEntry g (patchFat g p d) k c = fatEntry g d k c := by
    intro k hk
    rw [fatEntry_patchFat hg p d hc hk, h k hk]
  unfold Agree
  constructor
  · intro ha k hk
    rw [← hentry k hk, ← hentry 0 hg.fatCountPos]
    exact ha k hk
  · intro ha k hk
    rw [hentry k hk, hentry 0 hg.fatCountPos]
    exact ha k hk

end Patched

section FreeChain
variable {g : BpbGeometry} {n : Nat} (hg : g.Sound n) {d : Disk} {c : Nat} {l : List Nat}
include hg

/-- The chain from `c` is one that `free_chain` accepts. -/
def Freeable (g : BpbGeometry) (d : Disk) (limit c : Nat) (l : List Nat) : Prop :=
  Chain g d c l ∧ (∀ x ∈ l, Agree g d x) ∧ l.length ≤ limit

theorem value_validateChain (d : Disk) : ∀ m c,
    (∃ l, Freeable g d m c l) ∧ value (validateChain g m c) d = .ok () ∨
      (¬ ∃ l, Freeable g d m c l) ∧ value (validateChain g m c) d = .error .corrupt
  | 0, c => by
    right
    refine ⟨?_, rfl⟩
    rintro ⟨l, hchain, -, hlen⟩
    have hmem := hchain.head_mem
    rw [List.length_eq_zero_iff.mp (Nat.le_zero.mp hlen)] at hmem
    cases hmem
  | m + 1, c => by
    unfold validateChain
    rw [value_bind (reads_chainNext _ _), value_chainNext_checked hg]
    by_cases hdisagree : validCluster g c = true ∧ ¬ Agree g d c
    · right
      rw [if_pos hdisagree]
      refine ⟨?_, rfl⟩
      rintro ⟨l, hchain, hagree, -⟩
      exact hdisagree.2 (hagree c hchain.head_mem)
    · rw [if_neg hdisagree]
      cases hlink : link g d c with
      | none =>
        right
        refine ⟨?_, rfl⟩
        rintro ⟨l, hchain, -⟩
        cases hchain with
        | last h => rw [hlink] at h; cases h
        | next h => rw [hlink] at h; cases h
      | some next =>
        have hagree : Agree g d c := by
          by_contra hnot
          exact hdisagree ⟨link_valid hlink, hnot⟩
        cases next with
        | none =>
          left
          refine ⟨⟨[c], .last hlink, ?_, by simp⟩, rfl⟩
          intro x hx
          rw [List.mem_singleton.mp hx]
          exact hagree
        | some c' =>
          rcases value_validateChain d m c' with ⟨⟨l, hchain, hall, hlen⟩, hvalue⟩ | ⟨hnone, hvalue⟩
          · left
            refine ⟨⟨c :: l, .next hlink hchain, List.forall_mem_cons.mpr ⟨hagree, hall⟩, ?_⟩, hvalue⟩
            rw [List.length_cons]
            omega
          · right
            refine ⟨?_, hvalue⟩
            rintro ⟨l, hchain, hall, hlen⟩
            cases hchain with
            | last h => rw [hlink] at h; cases h
            | next h hrest =>
              rw [hlink] at h
              obtain rfl := Option.some.inj (Option.some.inj h)
              rw [List.length_cons] at hlen
              exact hnone ⟨_, hrest, fun x hx => hall x (List.mem_cons_of_mem _ hx), by omega⟩

omit hg in
theorem clear_cons (c : Nat) (l : List Nat) :
    (fun k x => (Patch.clear l k x).or (Patch.entry c 0 k x)) = Patch.clear (c :: l) := by
  funext k x
  unfold Patch.clear Patch.entry
  by_cases hx : x ∈ l
  · rw [if_pos hx, if_pos (List.mem_cons_of_mem c hx)]
    rfl
  · rw [if_neg hx, Option.none_or]
    congr 1
    apply propext
    rw [List.mem_cons]
    exact ⟨Or.inl, fun h => h.resolve_right hx⟩

omit hg in
theorem entryValue_zero : entryValue g 0 := ⟨Or.inl rfl, by decide⟩

theorem does_freeLinks (hm : g.mirroringEnabled = true) {l : List Nat} : ∀ {d : Disk} {c : Nat},
    Chain g d c l → (∀ x ∈ l, Agree g d x) → ∀ m, l.length ≤ m →
      Does g.totalSectors (freeLinks (some g) g m c) d (.ok ()) (patchFat g (.clear l) d) := by
  -- the second pass: no link is destroyed before it has been read
  induction l with
  | nil =>
    intro d c hchain
    cases hchain.head_mem
  | cons x rest ih =>
    intro d c hchain hagree m hlen
    obtain ⟨m, rfl⟩ : ∃ k, m = k + 1 := ⟨m - 1, by rw [List.length_cons] at hlen; omega⟩
    have hhead : Does g.totalSectors (chainNext g c false) d (linkResult (link g d c)) d :=
      .of_value (reads_chainNext _ _) (value_chainNext hg c d)
    unfold freeLinks
    cases hchain with
    | last h =>
      have hwrite := does_writeFatEntry hg hm (link_valid h) entryValue_zero (hagree x List.mem_cons_self)
      have hpatch : Patch.clear [x] = Patch.entry x 0 := by
        funext k y
        unfold Patch.clear Patch.entry
        simp only [List.mem_singleton]
      rw [h] at hhead
      rw [hpatch]
      exact .bind hhead (.bind hwrite (.pure ()))
    | @next _ c' _ h hrest =>
      have hwrite := does_writeFatEntry hg hm (link_valid h) entryValue_zero (hagree x List.mem_cons_self)
      have hnodup := (Path.next h hrest).nodup
      have hother : ∀ y ∈ rest, ∀ k, Patch.entry x 0 k y = none := by
        intro y hy k
        apply if_neg
        rintro rfl
        exact (List.nodup_cons.mp hnodup).1 hy
      have hchain' : Chain g (patchFat g (.entry x 0) d) c' rest :=
        hrest.congr fun y hy => link_patchFat hg (hother y hy 0)
      have hagree' : ∀ y ∈ rest, Agree g (patchFat g (.entry x 0) d) y := by
        intro y hy
        rw [agree_patchFat hg (Chain.valid hrest y hy) fun k _ => hother y hy k]
        exact hagree y (List.mem_cons_of_mem x hy)
      have hrec := ih hchain' hagree' m (by rw [List.length_cons] at hlen; omega)
      rw [patchFat_patchFat, clear_cons] at hrec
      rw [h] at hhead
      exact .bind hhead (.bind hwrite hrec)

theorem does_freeChain (hm : g.mirroringEnabled = true) (d : Disk) (first : Nat) :
    (first = 0 ∧ Does g.totalSectors (freeChain (some g) first) d (.ok ()) d) ∨
    (∃ l, first ≠ 0 ∧ Freeable g d g.clusterCount first l ∧
      Does g.totalSectors (freeChain (some g) first) d (.ok ()) (patchFat g (.clear l) d)) ∨
    (first ≠ 0 ∧ (¬ ∃ l, Freeable g d g.clusterCount first l) ∧
      Does g.totalSectors (freeChain (some g) first) d (.error .corrupt) d) := by
  unfold freeChain
  rw [geometryForWrite_bind, if_pos hm]
  by_cases hzero : first = 0
  · rw [if_pos hzero]
    exact Or.inl ⟨hzero, .pure ()⟩
  rw [if_neg hzero]
  by_cases hvalid : validCluster g first = true
  · rw [if_neg (by simp [hvalid])]
    rcases value_validateChain hg d g.clusterCount first with ⟨⟨l, hl⟩, hvalue⟩ | ⟨hnone, hvalue⟩
    · refine Or.inr (Or.inl ⟨l, hzero, hl, ?_⟩)
      exact .bind (.of_value (reads_validateChain _ _) hvalue) (does_freeLinks hg hm hl.1 hl.2.1 _ hl.2.2)
    · refine Or.inr (Or.inr ⟨hzero, hnone, ?_⟩)
      exact .bind_error (.of_value (reads_validateChain _ _) hvalue) _
  · rw [if_pos (by simpa using hvalid)]
    refine Or.inr (Or.inr ⟨hzero, ?_, .throw _⟩)
    rintro ⟨l, hchain, -⟩
    exact hvalid (hchain.valid first hchain.head_mem)

theorem chainNext_wp (c : Nat) (dev : Device) :
    wp (chainNext g c false) (fun next dev' => link g dev.sectors c = some next ∧ dev'.sectors = dev.sectors)
      (fun e dev' => e ≠ .noSpace ∧ dev'.sectors = dev.sectors) dev := by
  refine wp_mono ((reads_chainNext c false).wp dev) ?_ ?_
  · rintro next dev' ⟨hvalue, hsec, -⟩
    rw [value_chainNext hg] at hvalue
    refine ⟨?_, hsec⟩
    cases hlink : link g dev.sectors c with
    | none => rw [hlink] at hvalue; cases hvalue
    | some r => rw [hlink] at hvalue; rw [Except.ok.inj hvalue]
  · rintro e dev' ⟨hsec, -, hcases⟩
    refine ⟨?_, hsec⟩
    rcases hcases with hvalue | ⟨rfl, -⟩
    · rw [value_chainNext hg] at hvalue
      cases hlink : link g dev.sectors c with
      | none =>
        rw [hlink] at hvalue
        rw [← Except.error.inj hvalue]
        decide
      | some r => rw [hlink] at hvalue; cases hvalue
    · decide

theorem freeLinks_wp {l : List Nat} : ∀ {c : Nat} (m : Nat) (dev : Device), Chain g dev.sectors c l →
    l.length ≤ m →
    wp (freeLinks (some g) g m c) (fun _ dev' => dev'.sectors = patchFat g (.clear l) dev.sectors)
      (fun e dev' => e ≠ .noSpace ∧ PatchedBy g dev.sectors (fun _ c' _ => c' ∈ l) dev'.sectors) dev := by
  -- the second pass on any drive: it reaches the clusters of the chain and no others
  induction l with
  | nil =>
    intro c m dev hchain
    cases hchain.head_mem
  | cons x rest ih =>
    intro c m dev hchain hlen
    obtain ⟨m, rfl⟩ : ∃ k, m = k + 1 := ⟨m - 1, by rw [List.length_cons] at hlen; omega⟩
    obtain rfl : x = c := by cases hchain <;> rfl
    have hentry : ∀ k c' w, Patch.entry x 0 k c' = some w → c' ∈ x :: rest := by
      intro k c' w hw
      rw [(entry_eq_some hw).1]
      exact List.mem_cons_self
    unfold freeLinks
    refine wp_bind (chainNext_wp hg x dev) ?_
      (fun e dev' h => ⟨h.1, by rw [h.2]; exact .refl _ _ _⟩)
    rintro next dev' ⟨hlink, hsec⟩
    rw [← hsec] at hlink ⊢
    refine wp_bind (writeFatEntry_wp hg x 0 dev') ?_ ?_
    · rintro _ dev'' ⟨hsec', -⟩
      cases next with
      | none =>
        have hlast : rest = [] := by
          cases hchain with
          | last => rfl
          | next h => rw [← hsec, hlink] at h; cases h
        have hpatch : Patch.clear (x :: rest) = Patch.entry x 0 := by
          rw [hlast]
          funext k y
          unfold Patch.clear Patch.entry
          simp only [List.mem_singleton]
        rw [hpatch]
        exact wp_pure hsec'
      | some c' =>
        have hrest : Chain g dev'.sectors c' rest := by
          rw [← hsec] at hchain
          cases hchain with
          | last h => rw [hlink] at h; cases h
          | next h hrest =>
            rw [hlink] at h
            rw [Option.some.inj (Option.some.inj h)]
            exact hrest
        have hnodup := (Path.next hlink hrest).nodup
        have hchain' : Chain g dev''.sectors c' rest := by
          rw [hsec']
          refine hrest.congr fun y hy => link_patchFat hg (if_neg ?_)
          rintro rfl
          exact (List.nodup_cons.mp hnodup).1 hy
        refine wp_mono (ih m dev'' hchain' (by rw [List.length_cons] at hlen; omega)) ?_ ?_
        · intro _ dev3 hsec3
          rw [hsec3, hsec', patchFat_patchFat, clear_cons]
        · rintro e dev3 ⟨he, hpatched⟩
          refine ⟨he, PatchedBy.trans ?_ (hpatched.mono fun _ _ _ hmem => List.mem_cons_of_mem x hmem)⟩
          rw [hsec']
          exact patchedBy_patchFat hentry
    · rintro e dev'' ⟨he, hcases⟩
      refine ⟨he, ?_⟩
      rcases hcases with hsec' | ⟨-, -, -, hhalf⟩
      · rw [hsec']
        exact .refl _ _ _
      · refine hhalf.mono fun _ c' _ h => ?_
        rw [h.1]
        exact List.mem_cons_self

theorem freeChain_wp (first : Nat) (dev : Device) :
    wp (freeChain (some g) first)
      (fun _ dev' => first = 0 ∧ dev'.sectors = dev.sectors ∨
        ∃ l, Freeable g dev.sectors g.clusterCount first l ∧
          dev'.sectors = patchFat g (.clear l) dev.sectors)
      (fun e dev' => e ≠ .noSpace ∧ (dev'.sectors = dev.sectors ∨
        ∃ l, Freeable g dev.sectors g.clusterCount first l ∧
          PatchedBy g dev.sectors (fun _ c _ => c ∈ l) dev'.sectors)) dev := by
  unfold freeChain
  rw [geometryForWrite_bind]
  refine wp_ite (fun _ => ?_) fun _ => wp_throw ⟨by decide, Or.inl rfl⟩
  refine wp_ite (fun hzero => wp_pure (Or.inl ⟨hzero, rfl⟩)) fun _ => ?_
  refine wp_ite (fun _ => wp_throw ⟨by decide, Or.inl rfl⟩) fun _ => ?_
  refine wp_bind ((reads_validateChain g.clusterCount first).wp dev) ?_ ?_
  · rintro _ dev' ⟨hvalue, hsec, -⟩
    rcases value_validateChain hg dev.sectors g.clusterCount first with ⟨⟨l, hl⟩, -⟩ | ⟨-, hbad⟩
    · have hchain : Chain g dev'.sectors first l := by rw [hsec]; exact hl.1
      refine wp_mono (freeLinks_wp hg g.clusterCount dev' hchain hl.2.2) ?_ ?_
      · intro _ dev'' hsec'
        rw [hsec', hsec]
        exact Or.inr ⟨l, hl, rfl⟩
      · rintro e dev'' ⟨he, hpatched⟩
        rw [hsec] at hpatched
        exact ⟨he, Or.inr ⟨l, hl, hpatched⟩⟩
    · exact nomatch hbad.symm.trans hvalue
  · rintro e dev' ⟨hsec, -, hcases⟩
    refine ⟨?_, Or.inl hsec⟩
    rcases hcases with hvalue | ⟨rfl, -⟩
    · rcases value_validateChain hg dev.sectors g.clusterCount first with ⟨-, hok⟩ | ⟨-, hbad⟩
      · exact nomatch hok.symm.trans hvalue
      · rw [← Except.error.inj (hbad.symm.trans hvalue)]
        decide
    · decide

omit hg in
theorem patchFat_changed {p : Patch} {lba : Nat} {j : Fin 512} (h : patchFat g p d lba j ≠ d lba j) :
    g.fatBeginLba ≤ lba ∧ lba < g.firstDataLba ∧
      p (g.copyOf lba) (g.clusterOf lba j.val) ≠ none := by
  unfold patchFat at h
  by_cases hfat : g.fatBeginLba ≤ lba ∧ lba < g.firstDataLba
  · rw [if_pos hfat] at h
    refine ⟨hfat.1, hfat.2, fun hnone => ?_⟩
    rw [hnone] at h
    exact h rfl
  · rw [if_neg hfat] at h
    exact absurd rfl h

end FreeChain

/-- `d'` is `d` with the entries of these clusters freed in every copy and nothing else changed. -/
structure ChainFreed (g : BpbGeometry) (d d' : Disk) (chain : List Nat) : Prop where
  entries : ∀ k c, k < g.fatCount → validCluster g c = true →
    fatEntry g d' k c =
      if c ∈ chain then fatEntry g d k c / 2 ^ 28 * 2 ^ 28 else fatEntry g d k c
  bytes : ∀ lba j, d' lba j ≠ d lba j → ∃ k c, k < g.fatCount ∧ c ∈ chain ∧ lba = g.fatLba k c ∧
    c % 128 * 4 ≤ j.val ∧ j.val < c % 128 * 4 + 4

theorem chainFreed_patchFat {g : BpbGeometry} {n : Nat} (hg : g.Sound n) (d : Disk) (l : List Nat) :
    ChainFreed g d (patchFat g (.clear l) d) l := by
  constructor
  case entries =>
    intro k c hk hc
    rw [fatEntry_patchFat hg _ _ hc hk]
    unfold Patch.clear
    by_cases hmem : c ∈ l
    · rw [if_pos hmem, if_pos hmem]
      show _ + 0 % 2 ^ 28 = _
      rw [Nat.zero_mod, Nat.add_zero]
    · rw [if_neg hmem, if_neg hmem]
  case bytes =>
    intro lba j hchanged
    obtain ⟨hlo, hhi, hpatch⟩ := patchFat_changed hchanged
    obtain ⟨hlba, hoffset⟩ := fatLba_copyOf hlo j.isLt
    have hmem : g.clusterOf lba j.val ∈ l := by
      by_contra hnot
      exact hpatch (if_neg hnot)
    exact ⟨_, _, copyOf_lt hg ⟨hlo, hhi⟩, hmem, hlba.symm, by omega, by omega⟩

theorem chainFreed_nil (g : BpbGeometry) (d : Disk) : ChainFreed g d d [] where
  entries := fun _ _ _ _ => rfl
  bytes := fun _ _ h => absurd rfl h

/-- `free_chain` frees exactly the chain, or it leaves the disk alone. -/
theorem freeChain_exact (sector : Sector) (diskSectors : Nat) (g : BpbGeometry)
    (h : parseBpb sector diskSectors = some g) (hm : g.mirroringEnabled = true) (dev : Device)
    (hready : dev.Ready g.totalSectors) (first : Nat) :
    (((freeChain (some g) first).exec dev).1 = .ok () ↔
      first = 0 ∨ ∃ chain, Chain g dev.sectors first chain ∧ (∀ c ∈ chain, Agree g dev.sectors c) ∧
        chain.length ≤ g.clusterCount) ∧
    (((freeChain (some g) first).exec dev).1 = .ok () →
      ∃ chain, (first = 0 ∧ chain = [] ∨ Chain g dev.sectors first chain) ∧
        ChainFreed g dev.sectors ((freeChain (some g) first).exec dev).2.sectors chain) ∧
    (((freeChain (some g) first).exec dev).1 ≠ .ok () →
      ((freeChain (some g) first).exec dev).2.sectors = dev.sectors) := by
  have hg := parseBpb_sound h
  rcases does_freeChain hg hm dev.sectors first with
    ⟨hzero, hdoes⟩ | ⟨l, hzero, hl, hdoes⟩ | ⟨hzero, hnone, hdoes⟩
  all_goals
    obtain ⟨hresult, hsectors⟩ := hdoes.exec hready rfl
    rw [hresult, hsectors]
  · exact ⟨⟨fun _ => Or.inl hzero, fun _ => rfl⟩,
      fun _ => ⟨[], Or.inl ⟨hzero, rfl⟩, chainFreed_nil g dev.sectors⟩, fun hne => absurd rfl hne⟩
  · exact ⟨⟨fun _ => Or.inr ⟨l, hl⟩, fun _ => rfl⟩,
      fun _ => ⟨l, Or.inr hl.1, chainFreed_patchFat hg dev.sectors l⟩, fun hne => absurd rfl hne⟩
  · refine ⟨⟨fun hok => (nomatch hok), ?_⟩, fun hok => (nomatch hok), fun _ => rfl⟩
    rintro (heq | hchain)
    · exact absurd heq hzero
    · exact absurd hchain hnone

def chainDisk (lba : Nat) : Sector :=
  if lba = 32 ∨ lba = 544 then
    fun j => [0xF8, 0xFF, 0xFF, 0x0F, 0xFF, 0xFF, 0xFF, 0x0F, 0xFF, 0xFF, 0xFF, 0x0F, 0x04, 0, 0, 0xA0,
      0xFF, 0xFF, 0xFF, 0x0F].getD j.val 0
  else Sector.zero

def chainDevice : Device := ⟨chainDisk, 66586, true, fun _ => .none, []⟩

theorem chain_chainDisk : Chain smallGeometry chainDisk 3 [3, 4] :=
  .next (show link smallGeometry chainDisk 3 = some (some 4) by decide +kernel)
    (.last (by decide +kernel))

theorem freeChain_exact_small :
    chainDevice.Ready smallGeometry.totalSectors ∧
    ((freeChain (some smallGeometry) 3).exec chainDevice).1 = .ok () ∧
    ∃ chain, ChainFreed smallGeometry chainDisk
      ((freeChain (some smallGeometry) 3).exec chainDevice).2.sectors chain ∧ chain = [3, 4] := by
  have hready : chainDevice.Ready smallGeometry.totalSectors := ⟨⟨rfl, fun _ => rfl⟩, le_refl 66586⟩
  have hexact := freeChain_exact smallBoot 66586 smallGeometry parseBpb_smallBoot rfl chainDevice hready 3
  have hok := hexact.1.mpr (Or.inr ⟨[3, 4], chain_chainDisk, by decide +kernel, by decide⟩)
  obtain ⟨chain, hchain, hfreed⟩ := hexact.2.1 hok
  rcases hchain with ⟨hzero, -⟩ | hchain
  · cases hzero
  · exact ⟨hready, hok, chain, hfreed, hchain.unique chain_chainDisk⟩

end Linux95.Fat32
