import Linux95.Fat32.Lookups

/-! The read path on an arbitrary disk: the bytes `read_file` returns are those found along the
file's chain. -/

namespace Linux95.Fat32
open Base Storage Write

theorem mount_wp (dev : Device) :
    wp mount (fun volume dev' => dev'.sectors = dev.sectors ∧ dev'.written = dev.written ∧
        (∀ g, volume = some g → dev.present = true ∧ parseBpb (dev.sectors 0) dev.sectorCount = some g) ∧
        (dev.Reliable → 0 < dev.sectorCount → volume = parseBpb (dev.sectors 0) dev.sectorCount))
      (fun _ _ => False) dev := by
  show wp (if !dev.present then pure none else _) _ _ dev
  apply wp_ite
  · intro habsent
    refine wp_pure ⟨rfl, rfl, fun _ h => (nomatch h), fun hreliable => ?_⟩
    rw [hreliable.1] at habsent
    cases habsent
  intro hpresent
  have hpresent' : dev.present = true := by simpa using hpresent
  refine wp_bind (wp_attempt (readSector_wp dev 0)
    (Q := fun read dev' => dev'.sectors = dev.sectors ∧ dev'.written = dev.written ∧
      ((∃ e, read = .error e) ∧ ¬(dev.Reliable ∧ 0 < dev.sectorCount) ∨ read = .ok (dev.sectors 0)))
    (E := fun _ _ => False) ?_ ?_) ?_ (fun _ _ h => h)
  · rintro _ dev' ⟨rfl, hsectors, hwritten, -⟩
    exact ⟨hsectors, hwritten, Or.inr rfl⟩
  · rintro e dev' ⟨-, hsectors, hwritten, -, hunreliable⟩
    exact ⟨hsectors, hwritten, Or.inl ⟨⟨e, rfl⟩, hunreliable⟩⟩
  · rintro read dev' ⟨hsectors, hwritten, ⟨⟨e, rfl⟩, hunreliable⟩ | rfl⟩
    · exact wp_pure ⟨hsectors, hwritten, fun _ h => (nomatch h), fun hreliable hcount =>
        absurd ⟨hreliable, hcount⟩ hunreliable⟩
    · exact wp_pure ⟨hsectors, hwritten, fun g hg => ⟨hpresent', hg⟩, fun _ _ => rfl⟩

def activeLink (g : BpbGeometry) (disk : Nat → Sector) (c : Nat) : Option Nat :=
  let value := fat28 (le32 (disk (g.fatLba g.activeFat c)).byte (c % 128 * 4))
  if classifyFatEntry value = .next ∧ validCluster g value then some value else none

def nthCluster (g : BpbGeometry) (disk : Nat → Sector) : Nat → Nat → Option Nat
  | 0, c => some c
  | n + 1, c => (activeLink g disk c).bind (nthCluster g disk n)

def BpbGeometry.clusterBytes (g : BpbGeometry) : Nat := g.sectorsPerCluster * 512

def clusterByte (g : BpbGeometry) (disk : Nat → Sector) (c o : Nat) : UInt8 :=
  (disk (g.dataLba c (o / 512))).byte (o % 512)

def fileByte (g : BpbGeometry) (disk : Nat → Sector) (first i : Nat) : Option UInt8 :=
  (nthCluster g disk (i / g.clusterBytes) first).map fun c =>
    clusterByte g disk c (i % g.clusterBytes)

/-- The contents of a file of `size` bytes; `none` where its chain is too short. -/
def fileContents (g : BpbGeometry) (disk : Nat → Sector) (first size : Nat) : List (Option UInt8) :=
  (List.range size).map (fileByte g disk first)

section Chain
variable {g : BpbGeometry} {n : Nat} (hg : g.Sound n) {disk : Nat → Sector}
include hg

theorem clusterBytes_pos : 0 < g.clusterBytes := by
  have := hg.spcPos
  unfold BpbGeometry.clusterBytes
  omega

omit hg in
theorem fileByte_inside {c o : Nat} (ho : o < g.clusterBytes) :
    fileByte g disk c o = some (clusterByte g disk c o) := by
  unfold fileByte
  rw [Nat.div_eq_of_lt ho, Nat.mod_eq_of_lt ho]
  rfl

theorem fileByte_next {c c' : Nat} (h : activeLink g disk c = some c') (o : Nat) :
    fileByte g disk c (g.clusterBytes + o) = fileByte g disk c' o := by
  have hpos := clusterBytes_pos hg
  unfold fileByte
  rw [Nat.add_div_left _ hpos, Nat.add_mod_left]
  simp only [nthCluster, h, Option.bind_some]

theorem fileByte_nth {c : Nat} : ∀ {k c' : Nat}, nthCluster g disk k c = some c' → ∀ o,
    fileByte g disk c (k * g.clusterBytes + o) = fileByte g disk c' o := by
  intro k
  induction k generalizing c with
  | zero =>
    intro c' h o
    simp only [nthCluster, Option.some.injEq] at h
    rw [h, Nat.zero_mul, Nat.zero_add]
  | succ k ih =>
    intro c' h o
    simp only [nthCluster, Option.bind_eq_some_iff] at h
    obtain ⟨d, hd, hk⟩ := h
    rw [Nat.succ_mul, show k * g.clusterBytes + g.clusterBytes + o =
      g.clusterBytes + (k * g.clusterBytes + o) by omega, fileByte_next hg hd, ih hk]

theorem nextCluster_wp {c : Nat} (hc : validCluster g c = true) (dev : Device) :
    wp (nextCluster g c)
      (fun r dev' => dev'.sectors = dev.sectors ∧
        (∀ next, r = some next → activeLink g dev.sectors c = some next ∧ validCluster g next = true) ∧
        (r = none → isEoc (le32 (dev.sectors (g.fatLba g.activeFat c)).byte (c % 128 * 4)) = true))
      (fun _ dev' => dev'.sectors = dev.sectors) dev := by
  have hb := (fatLba_bounds hg hc hg.activeLt).2.2
  unfold nextCluster
  rw [fatEntryLocation_eq hg hc]
  dsimp only
  rw [if_neg (by simp [validDataCluster_eq, hc]), activeLocation_eq hg hc]
  dsimp only
  rw [if_neg (by omega)]
  refine wp_bind (readSector_wp dev _) ?_ (fun _ _ h => h.2.1)
  rintro s dev' ⟨rfl, hsec, -⟩
  have hff : ∀ v, fat28 (fat28 v) = fat28 v := fun v => by unfold fat28; omega
  split
  · rename_i hkind
    refine wp_pure ⟨hsec, fun _ h => (nomatch h), fun _ => ?_⟩
    simp only [classifyFatEntry, hff] at hkind
    split_ifs at hkind with h1 h2 h3 h4 h5
    have : fat28 (le32 (dev.sectors (g.fatLba g.activeFat c)).byte (c % 128 * 4)) < 2 ^ 28 :=
      Nat.mod_lt _ (by decide)
    simp only [isEoc, Bool.and_eq_true, decide_eq_true_eq]
    omega
  · rename_i hkind
    split
    · rename_i hv
      refine wp_pure ⟨hsec, fun next hnext => ?_, fun h => (nomatch h)⟩
      obtain rfl := Option.some.inj hnext
      unfold activeLink
      exact ⟨if_pos ⟨hkind, hv⟩, hv⟩
    · exact wp_throw hsec
  · exact wp_throw hsec

theorem skipClusters_wp : ∀ k c transitions (dev : Device), validCluster g c = true →
    wp (skipClusters g k c transitions)
      (fun r dev' => dev'.sectors = dev.sectors ∧ nthCluster g dev.sectors k c = some r.1 ∧
        validCluster g r.1 = true)
      (fun _ dev' => dev'.sectors = dev.sectors) dev := by
  intro k
  induction k with
  | zero => exact fun c t dev hc => wp_pure ⟨rfl, rfl, hc⟩
  | succ k ih =>
    intro c t dev hc
    unfold skipClusters
    refine wp_ite (fun _ => wp_throw rfl) fun _ => ?_
    refine wp_bind (nextCluster_wp hg hc dev) ?_ (fun _ _ h => h)
    rintro (_ | next) dev' ⟨hsec, hnext, -⟩
    · exact wp_throw hsec
    · obtain ⟨hlink, hv⟩ := hnext next rfl
      refine wp_mono (ih next (t + 1) dev' hv) ?_ (fun _ _ h => h.trans hsec)
      rintro r dev'' ⟨hsec', hnth, hv'⟩
      rw [hsec] at hnth
      refine ⟨hsec'.trans hsec, ?_, hv'⟩
      simp only [nthCluster, hlink, Option.bind_some, hnth]

theorem readSectors_wp {c : Nat} (hc : validCluster g c = true) : ∀ k i inside remaining buffer
    (dev : Device), i + k = g.sectorsPerCluster → inside < 512 →
    wp (readSectors (g.firstDataLba + (c - 2) * g.sectorsPerCluster) k i inside remaining buffer)
      (fun r dev' => dev'.sectors = dev.sectors ∧
        ∃ m, m = min remaining (k * 512 - inside) ∧ r.1 = remaining - m ∧
          r.2 = buffer ++ (List.range m).map fun j =>
            clusterByte g dev.sectors c (i * 512 + inside + j))
      (fun _ dev' => dev'.sectors = dev.sectors) dev := by
  intro k
  induction k with
  | zero =>
    intro i inside remaining buffer dev _ _
    exact wp_pure ⟨rfl, 0, by simp, by simp, by simp⟩
  | succ k ih =>
    intro i inside remaining buffer dev hik hin
    unfold readSectors
    refine wp_ite (fun h0 => wp_pure ⟨rfl, 0, by simp [h0], by simp, by simp⟩) fun h0 => ?_
    obtain ⟨-, hhi, -⟩ := dataLba_bounds hg hc (show i < g.sectorsPerCluster by omega)
    have htot := hg.totalLt
    rw [checkedAddU32_eq (by unfold BpbGeometry.dataLba at hhi; omega)]
    refine wp_bind (readSector_wp dev _) ?_ (fun _ _ h => h.2.1)
    rintro s dev' ⟨rfl, hsec, -⟩
    dsimp only
    refine wp_mono (ih (i + 1) 0 _ _ dev' (by omega) (by omega)) ?_ (fun _ _ h => h.trans hsec)
    rintro ⟨rem', buf'⟩ dev'' ⟨hsec', m, hm, hrem, hbuf⟩
    dsimp only at hrem hbuf ⊢
    have hbyte : ∀ j, j < 512 - inside →
        (dev.sectors (g.firstDataLba + (c - 2) * g.sectorsPerCluster + i)).byte (inside + j) =
          clusterByte g dev.sectors c (i * 512 + inside + j) := by
      intro j hj
      unfold clusterByte BpbGeometry.dataLba
      rw [show (i * 512 + inside + j) / 512 = i by omega,
        show (i * 512 + inside + j) % 512 = inside + j by omega]
    generalize hamount : (if 512 - inside > remaining then remaining else 512 - inside) = amount
      at hm hrem hbuf
    have hle : amount ≤ 512 - inside ∧ amount ≤ remaining ∧
        (amount = remaining ∨ amount = 512 - inside) := by
      rw [← hamount]
      split <;> omega
    refine ⟨hsec'.trans hsec, amount + m, ?_, by omega, ?_⟩
    · rw [hm, Nat.add_mul]
      omega
    · have hhead : (List.range amount).map (fun j =>
            (dev.sectors (g.firstDataLba + (c - 2) * g.sectorsPerCluster + i)).byte (inside + j)) =
          (List.range amount).map fun j => clusterByte g dev.sectors c (i * 512 + inside + j) :=
        List.map_congr_left fun j hj => hbyte j (by have := List.mem_range.mp hj; omega)
      have htail : (List.range m).map (fun j => clusterByte g dev.sectors c ((i + 1) * 512 + 0 + j)) =
          (List.range m).map ((fun j => clusterByte g dev.sectors c (i * 512 + inside + j)) ∘
            (amount + ·)) := by
        refine List.map_congr_left fun j hj => ?_
        have := List.mem_range.mp hj
        rw [Function.comp_apply,
          show i * 512 + inside + (amount + j) = (i + 1) * 512 + 0 + j by omega]
      rw [hbuf, List.append_assoc, List.range_add, List.map_append, List.map_map, hsec, hhead, htail]

theorem readClusters_wp (eof : Bool) : ∀ k c clusterOffset remaining buffer (dev : Device),
    validCluster g c = true → clusterOffset < g.clusterBytes →
    wp (readClusters g eof k c clusterOffset remaining buffer)
      (fun r dev' => dev'.sectors = dev.sectors ∧ ∃ bytes, r = buffer ++ bytes ∧
        bytes.length = remaining ∧ ∀ j, j < remaining →
          fileByte g dev.sectors c (clusterOffset + j) = bytes[j]?)
      (fun _ dev' => dev'.sectors = dev.sectors) dev := by
  intro k
  induction k with
  | zero => exact fun _ _ _ _ _ _ _ => wp_throw rfl
  | succ k ih =>
    intro c clusterOffset remaining buffer dev hc hoff
    have hoff' : clusterOffset < g.sectorsPerCluster * 512 := hoff
    unfold readClusters
    rw [if_neg (by simp [validDataCluster_eq, hc]), clusterToLba_eq hg hc]
    refine wp_bind (readSectors_wp hg hc (g.sectorsPerCluster - clusterOffset / 512)
      (clusterOffset / 512) (clusterOffset % 512) remaining buffer dev (by omega) (by omega)) ?_
      (fun _ _ h => h)
    rintro ⟨rem', buf'⟩ dev' ⟨hsec, m, hm, hrem, hbuf⟩
    dsimp only at hrem hbuf ⊢
    rw [show clusterOffset / 512 * 512 + clusterOffset % 512 = clusterOffset by omega] at hbuf
    have hcap : m = min remaining (g.clusterBytes - clusterOffset) := by
      rw [hm, Nat.sub_mul]
      unfold BpbGeometry.clusterBytes
      omega
    have hfirst : ∀ j, j < m → fileByte g dev.sectors c (clusterOffset + j) =
        ((List.range m).map fun j => clusterByte g dev.sectors c (clusterOffset + j))[j]? := by
      intro j hj
      rw [fileByte_inside (by omega)]
      simp [hj]
    refine wp_ite (fun hr0 => ?_) fun hr0 => ?_
    · have hall : m = remaining := by omega
      have hdone : dev'.sectors = dev.sectors ∧ ∃ bytes, buf' = buffer ++ bytes ∧
          bytes.length = remaining ∧ ∀ j, j < remaining →
            fileByte g dev.sectors c (clusterOffset + j) = bytes[j]? :=
        ⟨hsec, _, hbuf, by simp [hall], fun j hj => hfirst j (by omega)⟩
      refine wp_ite (fun _ => wp_pure hdone) fun _ => ?_
      refine wp_bind (nextCluster_wp hg hc dev') ?_ (fun _ _ h => h.trans hsec)
      rintro (_ | next) dev'' ⟨hsec', -⟩
      · exact wp_pure ⟨hsec'.trans hsec, hdone.2⟩
      · exact wp_throw (hsec'.trans hsec)
    · refine wp_bind (nextCluster_wp hg hc dev') ?_ (fun _ _ h => h.trans hsec)
      rintro (_ | next) dev'' ⟨hsec', hnext, -⟩
      · exact wp_throw (hsec'.trans hsec)
      · obtain ⟨hlink, hv⟩ := hnext next rfl
        rw [hsec] at hlink
        refine wp_mono (ih next 0 rem' buf' dev'' hv (clusterBytes_pos hg)) ?_
          (fun _ _ h => (h.trans hsec').trans hsec)
        rintro r dev3 ⟨hsec3, bytes, hr, hlen, hbytes⟩
        refine ⟨(hsec3.trans hsec').trans hsec, _, by rw [hr, hbuf, List.append_assoc], ?_, ?_⟩
        · simp only [List.length_append, List.length_map, List.length_range]
          omega
        · intro j hj
          by_cases hjm : j < m
          · rw [hfirst j hjm, List.getElem?_append_left (by simpa using hjm)]
          · have hpos : clusterOffset + j = g.clusterBytes + (j - m) := by omega
            rw [hpos, fileByte_next hg hlink, List.getElem?_append_right (by simpa using hjm)]
            have := hbytes (j - m) (by omega)
            rw [hsec', hsec, Nat.zero_add] at this
            simpa using this

end Chain

section Decoded
variable {κ ρ : Type} {visit : DirectoryEntry → κ → κ ⊕ ρ} {atEnd : κ → ρ} {R : ρ → Prop}
  (hvisit : ∀ raw entry k r, decodeDirectoryEntry raw = .normal entry → visit entry k = .inr r → R r)
  (hend : ∀ k, R (atEnd k))
include hvisit hend

theorem walkSlots_result (sector : Sector) : ∀ n offset k r,
    walkSlots visit atEnd sector n offset k = .inr r → R r
  | 0, _, _, _, h => nomatch h
  | n + 1, offset, k, r, h => by
    unfold walkSlots at h
    split at h
    · exact Sum.inr.inj h ▸ hend k
    · exact walkSlots_result sector n _ _ r h
    · rename_i entry hraw
      split at h
      · rename_i r' hr
        exact Sum.inr.inj h ▸ hvisit _ entry k r' hraw hr
      · exact walkSlots_result sector n _ _ r h

theorem walkSectors_result (clusterLba : Nat) : ∀ n i k (dev : Device),
    wp (walkSectors visit atEnd clusterLba n i k) (fun x _ => ∀ r, x = .inr r → R r)
      (fun _ _ => True) dev
  | 0, _, _, _ => wp_pure fun _ h => nomatch h
  | n + 1, i, k, dev => by
    unfold walkSectors
    split
    · exact wp_throw trivial
    refine wp_bind (readSector_wp dev _) ?_ (fun _ _ _ => trivial)
    rintro s dev' -
    split
    · rename_i r hr
      refine wp_pure fun r' h => ?_
      exact Sum.inr.inj h ▸ walkSlots_result hvisit hend s _ _ _ r hr
    · exact walkSectors_result clusterLba n _ _ dev'

theorem walkClusters_result (g : BpbGeometry) : ∀ n c k (dev : Device),
    wp (walkClusters g visit atEnd n c k) (fun r _ => R r) (fun _ _ => True) dev
  | 0, _, _, _ => wp_throw trivial
  | n + 1, c, k, dev => by
    unfold walkClusters
    refine wp_ite (fun _ => wp_throw trivial) fun _ => ?_
    split
    · exact wp_throw trivial
    refine wp_bind (walkSectors_result hvisit hend _ _ _ _ dev) ?_ (fun _ _ _ => trivial)
    rintro (k' | r) dev' hR
    · refine wp_bind (R := fun _ _ => True) (F := fun _ _ => True)
        (wp_iff.mpr ⟨fun _ _ => trivial, fun _ _ => trivial⟩) ?_ (fun _ _ _ => trivial)
      rintro (_ | next) dev'' -
      · exact wp_pure (hend k')
      · exact walkClusters_result g n next k' dev''
    · exact wp_pure (hR r rfl)

end Decoded

theorem findEntry_decoded (g : BpbGeometry) (c : Nat) (wanted : CString) (dev : Device) :
    wp (findEntry g c wanted) (fun e _ => ∃ raw, decodeDirectoryEntry raw = .normal e)
      (fun _ _ => True) dev := by
  refine wp_bind (walkClusters_result
    (R := fun r => ∀ e, r = some e → ∃ raw, decodeDirectoryEntry raw = .normal e) ?_ ?_ g _ c () dev)
    ?_ (fun _ _ _ => trivial)
  · intro raw entry _ r hraw hr e he
    split_ifs at hr
    obtain rfl := Sum.inr.inj hr
    exact ⟨raw, Option.some.inj he ▸ hraw⟩
  · exact fun _ _ h => nomatch h
  · rintro (_ | e) dev' hR
    · exact wp_throw trivial
    · exact wp_pure (hR e rfl)

theorem resolveComponents_decoded (g : BpbGeometry) : ∀ c components (dev : Device),
    wp (resolveComponents g c components) (fun e _ => ∃ raw, decodeDirectoryEntry raw = .normal e)
      (fun _ _ => True) dev
  | _, [], _ => wp_throw trivial
  | c, component :: rest, dev => by
    unfold resolveComponents
    refine wp_ite (fun _ => wp_throw trivial) fun _ => ?_
    refine wp_bind (findEntry_decoded g c component dev) ?_ (fun _ _ _ => trivial)
    intro e dev' he
    refine wp_ite (fun _ => wp_pure he) fun _ => wp_ite (fun _ => wp_throw trivial) fun _ => ?_
    exact wp_ite (fun _ => wp_throw trivial) fun _ => resolveComponents_decoded g _ rest dev'

theorem decoded_size_lt {raw : Entry} {e : DirectoryEntry}
    (h : decodeDirectoryEntry raw = .normal e) : e.size < 2 ^ 32 := by
  unfold decodeDirectoryEntry at h
  dsimp only at h
  split_ifs at h
  split at h
  · exact nomatch h
  · rw [Decoded.normal.injEq] at h
    rw [← h]
    exact le32_lt _ _

theorem resolveEntry_size_lt {g : BpbGeometry} {path : Option CString} {disk : Nat → Sector}
    {e : DirectoryEntry} (h : value (resolveEntry (some g) path) disk = .ok e) :
    e.size < 2 ^ 32 := by
  cases path with
  | none => exact nomatch h
  | some path =>
    unfold value resolveEntry at h
    dsimp only at h
    split_ifs at h
    · exact nomatch h
    · obtain ⟨raw, hraw⟩ := (wp_iff.mp (resolveComponents_decoded g g.rootCluster _ (perfect disk))).1 e h
      exact decoded_size_lt hraw

/-- **What `read_file` returns**: as many bytes of the file from `offset` on as the buffer takes
and the file has, and the size recorded in the directory. -/
theorem readFile_wp {g : BpbGeometry} {n : Nat} (hg : g.Sound n) (path : Option CString)
    (offset : Nat) (buffer : Bool) (bufferSize : Nat) (dev : Device) :
    wp (readFile (some g) path offset buffer bufferSize)
      (fun r dev' => dev'.sectors = dev.sectors ∧ ∃ entry,
        value (resolveEntry (some g) path) dev.sectors = .ok entry ∧ r.2 = entry.size ∧
        r.1.length = min bufferSize (entry.size - offset) ∧
        ∀ j, j < r.1.length → fileByte g dev.sectors entry.firstCluster (offset + j) = r.1[j]?)
      (fun _ dev' => dev'.sectors = dev.sectors) dev := by
  unfold readFile
  refine wp_ite (fun _ => wp_throw rfl) fun _ => ?_
  refine wp_bind ((reads_resolveEntry hg path).wp dev) ?_ (fun _ _ h => h.1)
  rintro entry dev' ⟨hres, hsec, -⟩
  have hsize := resolveEntry_size_lt hres
  refine wp_ite (fun _ => wp_throw hsec) fun _ => wp_ite (fun hend => ?_) fun hend => ?_
  · refine wp_pure ⟨hsec, entry, hres, rfl, ?_, fun j hj => by simp at hj⟩
    simp only [List.length_nil]
    omega
  push Not at hend
  refine wp_ite (fun _ => wp_throw hsec) fun hv => ?_
  have hv' : validCluster g entry.firstCluster = true := by simpa [validDataCluster_eq] using hv
  have hspc := hg.spcLe
  rw [checkedMulU32_eq (by omega)]
  dsimp only
  rw [subU32_eq (by omega) hsize]
  generalize hrem : (if entry.size - offset > bufferSize then bufferSize else entry.size - offset)
    = remaining
  have hremEq : remaining = min bufferSize (entry.size - offset) := by
    rw [← hrem]
    split <;> omega
  refine wp_ite (fun h0 => by omega) fun _ => ?_
  refine wp_bind (skipClusters_wp hg _ _ 0 dev' hv') ?_ (fun _ _ h => h.trans hsec)
  rintro ⟨cluster, transitions⟩ dev2 ⟨hsec2, hnth, hcv⟩
  have hcb : offset % (g.sectorsPerCluster * 512) < g.clusterBytes :=
    Nat.mod_lt _ (clusterBytes_pos hg)
  refine wp_bind (readClusters_wp hg _ _ cluster _ remaining [] dev2 hcv hcb) ?_
    (fun _ _ h => (h.trans hsec2).trans hsec)
  rintro bytes dev3 ⟨hsec3, bs, hbs, hlen, hbytes⟩
  rw [List.nil_append] at hbs
  subst hbs
  refine wp_pure ⟨(hsec3.trans hsec2).trans hsec, entry, hres, rfl, hlen.trans hremEq, ?_⟩
  intro j hj
  have hj' := hbytes j (hlen ▸ hj)
  rw [hsec2, hsec] at hj'
  rw [hsec] at hnth
  have hoff : offset + j = offset / (g.sectorsPerCluster * 512) * g.clusterBytes +
      (offset % (g.sectorsPerCluster * 512) + j) := by
    have := Nat.div_add_mod offset (g.sectorsPerCluster * 512)
    rw [Nat.mul_comm] at this
    unfold BpbGeometry.clusterBytes
    omega
  rw [hoff, fileByte_nth hg hnth, hj']

end Linux95.Fat32
