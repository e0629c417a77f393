import Linux95.Fat32.Chains
import Linux95.Fat32.Contents

/-! `read_file` returns exact slices of a file whose chain fits its size, and refuses a read up to
the end of any other file. -/

namespace Linux95.Fat32
open Base Storage Write

def sectorBytes (s : Sector) : List UInt8 := (List.range 512).map s.byte

def chainBytes (g : BpbGeometry) (d : Disk) (chain : List Nat) : List UInt8 :=
  chain.flatMap fun c => (List.range g.sectorsPerCluster).flatMap fun i => sectorBytes (d (g.dataLba c i))

/-- The chain of a file of `size` bytes: as many clusters as the size needs, none for no bytes. -/
def FileChain (g : BpbGeometry) (d : Disk) (first size : Nat) (chain : List Nat) : Prop :=
  (size = 0 ∧ chain = [] ∨ Path (activeNext g d) first chain) ∧
    chain.length = (size + g.clusterBytes - 1) / g.clusterBytes

theorem getElem?_flatMap_uniform {α β : Type} {f : α → List β} {n : Nat} (hn : 0 < n)
    (h : ∀ a, (f a).length = n) : ∀ (l : List α) (i : Nat),
    (l.flatMap f)[i]? = l[i / n]?.bind fun a => (f a)[i % n]?
  | [], i => by simp
  | a :: l, i => by
    rw [List.flatMap_cons]
    by_cases hi : i < n
    · rw [List.getElem?_append_left (by rw [h]; exact hi), Nat.div_eq_of_lt hi, Nat.mod_eq_of_lt hi]
      rfl
    · obtain ⟨j, rfl⟩ := Nat.exists_eq_add_of_le (Nat.le_of_not_lt hi)
      rw [List.getElem?_append_right (by rw [h]; omega), h, Nat.add_sub_cancel_left,
        getElem?_flatMap_uniform hn h l j, Nat.add_div_left _ hn, Nat.add_mod_left,
        List.getElem?_cons_succ]

theorem length_flatMap_uniform {α β : Type} {f : α → List β} {n : Nat}
    (h : ∀ a, (f a).length = n) (l : List α) : (l.flatMap f).length = l.length * n := by
  rw [List.length_flatMap, List.map_congr_left fun a _ => h a, List.map_const', List.sum_replicate_nat]

theorem length_sectorBytes (s : Sector) : (sectorBytes s).length = 512 := by
  unfold sectorBytes
  rw [List.length_map, List.length_range]

section Bytes
variable {g : BpbGeometry} {n : Nat} (hg : g.Sound n) {d : Disk}
include hg

theorem chainBytes_getElem? (chain : List Nat) (i : Nat) :
    (chainBytes g d chain)[i]? = chain[i / g.clusterBytes]?.map fun c =>
      clusterByte g d c (i % g.clusterBytes) := by
  have hpos := clusterBytes_pos hg
  unfold chainBytes
  rw [getElem?_flatMap_uniform hpos fun c => ?_]
  · cases chain[i / g.clusterBytes]? with
    | none => rfl
    | some c =>
      have hlt : i % g.clusterBytes < g.sectorsPerCluster * 512 := Nat.mod_lt _ hpos
      generalize i % g.clusterBytes = o at hlt
      rw [Option.bind_some, Option.map_some, getElem?_flatMap_uniform (by decide) fun i =>
        length_sectorBytes _, List.getElem?_range (by omega), Option.bind_some]
      unfold sectorBytes clusterByte
      rw [List.getElem?_map, List.getElem?_range (by omega)]
      rfl
  · rw [length_flatMap_uniform fun i => length_sectorBytes _, List.length_range]
    rfl

omit hg in
theorem activeLink_of_next {c next : Nat} (h : activeNext g d c = some (some next)) :
    activeLink g d c = some next := by
  unfold activeNext at h
  split_ifs at h with hc
  obtain ⟨hnext, hkind, hv⟩ := linkOf_next h
  unfold activeLink
  rw [show le32 (d (g.fatLba g.activeFat c)).byte (c % 128 * 4) = fatEntry g d g.activeFat c from rfl,
    if_pos ⟨hkind, hnext ▸ hv⟩, ← hnext]

omit hg in
theorem activeLink_of_last {c : Nat} (h : activeNext g d c = some none) : activeLink g d c = none := by
  unfold activeNext at h
  split_ifs at h with hc
  unfold activeLink
  rw [show le32 (d (g.fatLba g.activeFat c)).byte (c % 128 * 4) = fatEntry g d g.activeFat c from rfl]
  unfold linkOf at h
  dsimp only
  rw [if_neg]
  rintro ⟨hkind, hv⟩
  rw [hkind, kindLink, if_pos hv] at h
  cases h

omit hg in
theorem nthCluster_path {c : Nat} {chain : List Nat} (h : Path (activeNext g d) c chain) (k : Nat) :
    nthCluster g d k c = chain[k]? := by
  induction h generalizing k with
  | last h =>
    cases k with
    | zero => rfl
    | succ k => rw [nthCluster, activeLink_of_last h]; rfl
  | next h _ ih =>
    cases k with
    | zero => rfl
    | succ k => rw [nthCluster, activeLink_of_next h, Option.bind_some, ih, List.getElem?_cons_succ]

theorem fileByte_path {c : Nat} {chain : List Nat} (h : Path (activeNext g d) c chain) (i : Nat) :
    fileByte g d c i = (chainBytes g d chain)[i]? := by
  rw [chainBytes_getElem? hg]
  unfold fileByte
  rw [nthCluster_path h]

end Bytes

section Walk
variable {g : BpbGeometry} {n : Nat} (hg : g.Sound n) {d : Disk} {c : Nat} {chain : List Nat}
include hg

omit hg in
theorem activeNext_valid {r : Option Nat} (h : activeNext g d c = some r) : validCluster g c = true := by
  unfold activeNext at h
  split_ifs at h with hc
  exact hc

theorem reads_skipClusters : ∀ k c t, Reads g.totalSectors (skipClusters g k c t)
  | 0, _, _ => .pure _
  | k + 1, c, t => by
    unfold skipClusters
    refine reads_ite (fun _ => .throw _) fun _ => .bind (reads_nextCluster hg c) fun next => ?_
    cases next with
    | none => exact .throw _
    | some next => exact reads_skipClusters k next _

theorem reads_readSectors (hc : validCluster g c = true) : ∀ k i inside remaining buffer,
    i + k = g.sectorsPerCluster → Reads g.totalSectors
      (readSectors (g.firstDataLba + (c - 2) * g.sectorsPerCluster) k i inside remaining buffer)
  | 0, _, _, _, _, _ => .pure _
  | k + 1, i, inside, remaining, buffer, hik => by
    obtain ⟨-, hhi, -⟩ := dataLba_bounds hg hc (show i < g.sectorsPerCluster by omega)
    have htot := hg.totalLt
    unfold BpbGeometry.dataLba at hhi
    unfold readSectors
    refine reads_ite (fun _ => .pure _) fun _ => ?_
    rw [checkedAddU32_eq (by omega)]
    exact .bind (.read hhi) fun _ => reads_readSectors hc k _ _ _ _ (by omega)

theorem reads_readClusters (eof : Bool) : ∀ k c off remaining buffer, off < g.clusterBytes →
    Reads g.totalSectors (readClusters g eof k c off remaining buffer)
  | 0, _, _, _, _, _ => .throw _
  | k + 1, c, off, remaining, buffer, hoff => by
    have hoff' : off < g.sectorsPerCluster * 512 := hoff
    unfold readClusters
    refine reads_ite (fun _ => .throw _) fun hv => ?_
    have hc : validCluster g c = true := by simpa [validDataCluster_eq] using hv
    rw [clusterToLba_eq hg hc]
    refine .bind (reads_readSectors hg hc _ _ _ _ _ (by omega)) ?_
    rintro ⟨rem', buf'⟩
    refine reads_ite (fun _ => reads_ite (fun _ => .pure _) fun _ => ?_) fun _ => ?_
    · refine .bind (reads_nextCluster hg c) fun next => ?_
      cases next with
      | none => exact .pure _
      | some next => exact .throw _
    · refine .bind (reads_nextCluster hg c) fun next => ?_
      cases next with
      | none => exact .throw _
      | some next => exact reads_readClusters eof k next 0 _ _ (clusterBytes_pos hg)

theorem reads_readFile (path : Option CString) (offset : Nat) (buffer : Bool) (bufferSize : Nat) :
    Reads g.totalSectors (readFile (some g) path offset buffer bufferSize) := by
  have hspc := hg.spcLe
  unfold readFile
  refine reads_ite (fun _ => .throw _) fun _ => .bind (reads_resolveEntry hg path) fun entry => ?_
  refine reads_ite (fun _ => .throw _) fun _ => reads_ite (fun _ => .pure _) fun _ => ?_
  refine reads_ite (fun _ => .throw _) fun _ => ?_
  rw [checkedMulU32_eq (by omega)]
  refine reads_ite (fun _ => .pure _) fun _ => .bind (reads_skipClusters hg _ _ _) ?_
  rintro ⟨cluster, transitions⟩
  refine .bind (reads_readClusters hg _ _ _ _ _ _ ?_) fun _ => .pure _
  exact Nat.mod_lt _ (clusterBytes_pos hg)

theorem value_readSectors (hc : validCluster g c = true) : ∀ k i inside remaining buffer,
    i + k = g.sectorsPerCluster →
    ∃ r, value (readSectors (g.firstDataLba + (c - 2) * g.sectorsPerCluster) k i inside remaining
      buffer) d = .ok r
  | 0, _, _, _, _, _ => ⟨_, rfl⟩
  | k + 1, i, inside, remaining, buffer, hik => by
    obtain ⟨-, hhi, -⟩ := dataLba_bounds hg hc (show i < g.sectorsPerCluster by omega)
    have htot := hg.totalLt
    unfold BpbGeometry.dataLba at hhi
    unfold readSectors
    by_cases h0 : remaining = 0
    · rw [if_pos h0]
      exact ⟨_, rfl⟩
    · rw [if_neg h0, checkedAddU32_eq (by omega)]
      dsimp only
      rw [value_bind_ok (.read hhi) (value_readSector _ _)]
      exact value_readSectors hc k _ _ _ _ (by omega)

theorem value_readClusters (eof : Bool) (hc : validCluster g c = true) (k off remaining : Nat)
    (buffer : List UInt8) (hoff : off < g.clusterBytes) :
    ∃ buffer', value (readClusters g eof (k + 1) c off remaining buffer) d =
      if remaining ≤ g.clusterBytes - off then
        if !eof then .ok buffer'
        else linkResult (activeNext g d c) >>= fun next =>
          match next with
          | none => .ok buffer'
          | some _ => .error .corrupt
      else linkResult (activeNext g d c) >>= fun next =>
        match next with
        | none => .error .corrupt
        | some next => value (readClusters g eof k next 0 (remaining - (g.clusterBytes - off)) buffer') d := by
  have hoff' : off < g.sectorsPerCluster * 512 := hoff
  obtain ⟨⟨rem', buffer'⟩, hread⟩ := value_readSectors (d := d) hg hc
    (g.sectorsPerCluster - off / 512) (off / 512) (off % 512) remaining buffer (by omega)
  obtain ⟨-, m, hm, hrem, -⟩ := (wp_iff.mp (readSectors_wp hg hc
    (g.sectorsPerCluster - off / 512) (off / 512) (off % 512) remaining buffer (perfect d)
    (by omega) (by omega))).1 _ hread
  have hcap : rem' = remaining - (g.clusterBytes - off) := by
    rw [Nat.sub_mul] at hm
    unfold BpbGeometry.clusterBytes
    dsimp only at hrem
    omega
  refine ⟨buffer', ?_⟩
  rw [readClusters, if_neg (by simp [validDataCluster_eq, hc]), clusterToLba_eq hg hc]
  dsimp only
  rw [value_bind_ok (reads_readSectors hg hc _ _ _ _ _ (by omega)) hread]
  dsimp only
  rw [hcap, value_ite, value_ite, value_bind (reads_nextCluster hg c),
    value_bind (reads_nextCluster hg c), value_activeNext hg]
  by_cases hdone : remaining ≤ g.clusterBytes - off
  · rw [if_pos (by omega), if_pos hdone]
    cases activeNext g d c with
    | none => rfl
    | some next => cases next <;> rfl
  · rw [if_neg (by omega), if_neg hdone]
    cases activeNext g d c with
    | none => rfl
    | some next => cases next <;> rfl

omit hg in
theorem value_readClusters_invalid (eof : Bool) (hc : ¬ validCluster g c = true)
    (k off remaining : Nat) (buffer : List UInt8) :
    value (readClusters g eof k c off remaining buffer) d = .error .corrupt := by
  cases k with
  | zero => rfl
  | succ k =>
    rw [readClusters, if_pos (by simpa [validDataCluster_eq] using hc)]
    rfl

theorem readClusters_ok (eof : Bool) (h : Path (activeNext g d) c chain) :
    ∀ k off remaining buffer, chain.length ≤ k → off < g.clusterBytes → 0 < remaining →
      off + remaining ≤ chain.length * g.clusterBytes →
      (eof = true → (chain.length - 1) * g.clusterBytes < off + remaining) →
      ∃ bytes, value (readClusters g eof k c off remaining buffer) d = .ok bytes := by
  induction h with
  | @last c h =>
    intro k off remaining buffer hk hoff hpos hfit htail
    obtain ⟨k, rfl⟩ : ∃ j, k = j + 1 := ⟨k - 1, by rw [List.length_singleton] at hk; omega⟩
    obtain ⟨buffer', hstep⟩ :=
      value_readClusters (d := d) hg eof (activeNext_valid h) k off remaining buffer hoff
    rw [List.length_singleton, Nat.one_mul] at hfit
    rw [hstep, if_pos (by omega), h]
    cases eof with
    | false => exact ⟨_, rfl⟩
    | true => exact ⟨_, rfl⟩
  | @next c next rest h hrest ih =>
    intro k off remaining buffer hk hoff hpos hfit htail
    rw [List.length_cons] at hk hfit htail
    rw [Nat.add_mul, Nat.one_mul] at hfit
    have hrestPos : 0 < rest.length := List.length_pos_of_mem hrest.head_mem
    have hrow : (rest.length - 1) * g.clusterBytes + g.clusterBytes = rest.length * g.clusterBytes := by
      rw [← Nat.succ_mul]
      congr 1
      omega
    obtain ⟨k, rfl⟩ : ∃ j, k = j + 1 := ⟨k - 1, by omega⟩
    obtain ⟨buffer', hstep⟩ :=
      value_readClusters (d := d) hg eof (activeNext_valid h) k off remaining buffer hoff
    rw [hstep]
    by_cases hdone : remaining ≤ g.clusterBytes - off
    · have hnot : eof = false := by
        by_contra hne
        have hlt := htail (by simpa using hne)
        rw [Nat.add_sub_cancel] at hlt
        omega
      rw [if_pos hdone, hnot]
      exact ⟨_, rfl⟩
    · rw [if_neg hdone, h]
      refine ih k 0 _ buffer' (by omega) (clusterBytes_pos hg) (by omega) (by omega) fun heof => ?_
      have hlt := htail heof
      rw [Nat.add_sub_cancel] at hlt
      omega

theorem readClusters_end : ∀ k c off remaining buffer bytes, off < g.clusterBytes → 0 < remaining →
    value (readClusters g true k c off remaining buffer) d = .ok bytes →
    ∃ chain, Path (activeNext g d) c chain ∧ (chain.length - 1) * g.clusterBytes < off + remaining ∧
      off + remaining ≤ chain.length * g.clusterBytes := by
  -- a read that reached the end of the file has seen the end of the chain
  intro k
  induction k with
  | zero => exact fun _ _ _ _ _ _ _ h => nomatch h
  | succ k ih =>
    intro c off remaining buffer bytes hoff hpos hvalue
    by_cases hc : validCluster g c = true
    swap
    · rw [value_readClusters_invalid true hc] at hvalue
      cases hvalue
    obtain ⟨buffer', hstep⟩ := value_readClusters (d := d) hg true hc k off remaining buffer hoff
    rw [hstep] at hvalue
    by_cases hdone : remaining ≤ g.clusterBytes - off
    · rw [if_pos hdone] at hvalue
      cases hlink : activeNext g d c with
      | none =>
        rw [hlink] at hvalue
        cases hvalue
      | some next =>
        rw [hlink] at hvalue
        cases next with
        | none =>
          refine ⟨[c], .last hlink, ?_, ?_⟩
          · rw [List.length_singleton, Nat.sub_self, Nat.zero_mul]
            omega
          · rw [List.length_singleton, Nat.one_mul]
            omega
        | some next => cases hvalue
    · rw [if_neg hdone] at hvalue
      cases hlink : activeNext g d c with
      | none =>
        rw [hlink] at hvalue
        cases hvalue
      | some next =>
        rw [hlink] at hvalue
        cases next with
        | none => cases hvalue
        | some next =>
          obtain ⟨rest, hrest, hlow, hhigh⟩ :=
            ih next 0 _ buffer' bytes (clusterBytes_pos hg) (by omega) hvalue
          have hrestPos : 0 < rest.length := List.length_pos_of_mem hrest.head_mem
          have hrow : (rest.length - 1) * g.clusterBytes + g.clusterBytes =
              rest.length * g.clusterBytes := by
            rw [← Nat.succ_mul]
            congr 1
            omega
          refine ⟨c :: rest, .next hlink hrest, ?_, ?_⟩
          · rw [List.length_cons, Nat.add_sub_cancel]
            omega
          · rw [List.length_cons, Nat.succ_mul]
            omega

theorem value_skipClusters (h : Path (activeNext g d) c chain) : ∀ k t, k < chain.length →
    t + chain.length ≤ g.clusterCount →
    ∃ c', value (skipClusters g k c t) d = .ok (c', t + k) ∧
      Path (activeNext g d) c' (chain.drop k) := by
  induction h with
  | @last c h =>
    intro k t hk ht
    obtain rfl : k = 0 := by rw [List.length_singleton] at hk; omega
    exact ⟨c, rfl, .last h⟩
  | @next c next rest h hrest ih =>
    intro k t hk ht
    cases k with
    | zero => exact ⟨c, rfl, .next h hrest⟩
    | succ k =>
      rw [List.length_cons] at hk ht
      obtain ⟨c', hvalue, hpath⟩ := ih k (t + 1) (by omega) (by omega)
      refine ⟨c', ?_, hpath⟩
      have hnext : value (nextCluster g c) d = .ok (some next) := by
        rw [value_activeNext hg, h]
        rfl
      rw [skipClusters, if_neg (by simp [validDataCluster_eq, activeNext_valid h]; omega),
        value_bind_ok (reads_nextCluster hg c) hnext]
      rw [show t + (k + 1) = t + 1 + k by omega]
      exact hvalue

theorem skipClusters_path : ∀ k c t r, value (skipClusters g k c t) d = .ok r →
    Path (activeNext g d) r.1 chain → ∃ before, before.length = k ∧
      Path (activeNext g d) c (before ++ chain) := by
  intro k
  induction k with
  | zero =>
    intro c t r hvalue hpath
    obtain rfl := Except.ok.inj hvalue
    exact ⟨[], rfl, hpath⟩
  | succ k ih =>
    intro c t r hvalue hpath
    rw [skipClusters, value_ite] at hvalue
    split_ifs at hvalue
    · cases hvalue
    rw [value_bind (reads_nextCluster hg c), value_activeNext hg] at hvalue
    cases hlink : activeNext g d c with
    | none =>
      rw [hlink] at hvalue
      cases hvalue
    | some next =>
      rw [hlink] at hvalue
      cases next with
      | none => cases hvalue
      | some next =>
        obtain ⟨before, hlen, hbefore⟩ := ih next (t + 1) r hvalue hpath
        exact ⟨c :: before, by rw [List.length_cons, hlen], .next hlink hbefore⟩

end Walk

theorem eq_ceil_iff {b size k : Nat} (hb : 0 < b) (hsize : 0 < size) :
    k = (size + b - 1) / b ↔ (k - 1) * b < size ∧ size ≤ k * b := by
  constructor
  · rintro rfl
    have hlow := Nat.div_mul_le_self (size + b - 1) b
    have hhigh := Nat.lt_div_mul_add (a := size + b - 1) hb
    rw [Nat.sub_mul, Nat.one_mul]
    omega
  · rintro ⟨hlow, hhigh⟩
    have hk : 0 < k := by
      rcases Nat.eq_zero_or_pos k with rfl | hk
      · rw [Nat.zero_mul] at hhigh
        omega
      · exact hk
    have hrow : (k - 1) * b + b = k * b := by
      rw [← Nat.succ_mul]
      congr 1
      omega
    refine Nat.le_antisymm ((Nat.le_div_iff_mul_le hb).mpr (by omega)) ?_
    refine Nat.lt_succ_iff.mp ((Nat.div_lt_iff_lt_mul hb).mpr ?_)
    rw [Nat.succ_mul]
    omega

section Slices
variable {g : BpbGeometry} {n : Nat} (hg : g.Sound n) {d : Disk} {path : Option CString}
  {entry : DirectoryEntry} (hentry : value (resolveEntry (some g) path) d = .ok entry)
  (hfile : entry.isDirectory = false) {offset bufferSize : Nat}
include hg hentry hfile

theorem value_readFile_nothing (h : offset ≥ entry.size ∨ bufferSize = 0) :
    value (readFile (some g) path offset true bufferSize) d = .ok ([], entry.size) := by
  unfold readFile
  dsimp only
  rw [if_neg (by decide), value_bind_ok (reads_resolveEntry hg path) hentry, hfile,
    if_neg (by decide), if_pos h]
  rfl

theorem value_readFile (hsize : offset < entry.size) (hbuffer : 0 < bufferSize) :
    value (readFile (some g) path offset true bufferSize) d =
      if validCluster g entry.firstCluster then
        value (skipClusters g (offset / g.clusterBytes) entry.firstCluster 0) d >>= fun r =>
          value (readClusters g (min bufferSize (entry.size - offset) = entry.size - offset)
            (g.clusterCount - r.2) r.1 (offset % g.clusterBytes)
            (min bufferSize (entry.size - offset)) []) d >>= fun bytes => .ok (bytes, entry.size)
      else .error .corrupt := by
  have hspc := hg.spcLe
  have hlt := resolveEntry_size_lt hentry
  have hmin : (if entry.size - offset > bufferSize then bufferSize else entry.size - offset) =
      min bufferSize (entry.size - offset) := by
    split <;> omega
  unfold readFile
  dsimp only
  rw [if_neg (by decide), value_bind_ok (reads_resolveEntry hg path) hentry, hfile,
    if_neg (by decide), if_neg (by omega), validDataCluster_eq]
  by_cases hv : validCluster g entry.firstCluster = true
  · rw [if_neg (by simpa using hv), if_pos hv, checkedMulU32_eq (by omega),
      show g.sectorsPerCluster * 512 = g.clusterBytes from rfl]
    dsimp only
    rw [subU32_eq hsize.le hlt, hmin, if_neg (by omega), value_bind (reads_skipClusters hg _ _ _)]
    congr 1
    funext r
    rw [value_bind (reads_readClusters hg _ _ _ _ _ _ (Nat.mod_lt _ (clusterBytes_pos hg)))]
    rfl
  · rw [if_pos (by simpa using hv), if_neg hv]
    rfl

theorem value_readFile_ok (offset bufferSize : Nat) {chain : List Nat}
    (hchain : FileChain g d entry.firstCluster entry.size chain) :
    ∃ r, value (readFile (some g) path offset true bufferSize) d = .ok r := by
  by_cases hnothing : offset ≥ entry.size ∨ bufferSize = 0
  · exact ⟨_, value_readFile_nothing hg hentry hfile hnothing⟩
  push Not at hnothing
  obtain ⟨hsize, hbuffer⟩ := hnothing
  have hpos := clusterBytes_pos hg
  obtain ⟨hpath, hlen⟩ := hchain
  obtain ⟨hlow, hhigh⟩ := (eq_ceil_iff hpos (by omega)).mp hlen
  have hpath := hpath.resolve_left fun h => by omega
  have hcount := path_length_le hpath fun _ _ => activeNext_valid
  obtain ⟨r, hlink⟩ := hpath.linked _ hpath.head_mem
  have hdiv := Nat.div_add_mod' offset g.clusterBytes
  have hskip : offset / g.clusterBytes < chain.length := by
    refine (Nat.div_lt_iff_lt_mul hpos).mpr (hsize.trans_le hhigh)
  obtain ⟨c', hvalue, hrest⟩ := value_skipClusters hg hpath (offset / g.clusterBytes) 0 hskip (by omega)
  have hoff := Nat.mod_lt offset hpos
  generalize hq : offset / g.clusterBytes = q at *
  generalize hmod : offset % g.clusterBytes = off at *
  have hrow : q * g.clusterBytes + (chain.length - q) * g.clusterBytes =
      chain.length * g.clusterBytes := by
    rw [← Nat.add_mul]
    congr 1
    omega
  have hrow' : q * g.clusterBytes + (chain.length - q - 1) * g.clusterBytes =
      (chain.length - 1) * g.clusterBytes := by
    rw [← Nat.add_mul]
    congr 1
    omega
  obtain ⟨bytes, hbytes⟩ := readClusters_ok (d := d) hg
    (min bufferSize (entry.size - offset) = entry.size - offset) hrest (g.clusterCount - (0 + q)) off
    (min bufferSize (entry.size - offset)) [] (by rw [List.length_drop]; omega) hoff (by omega)
    (by rw [List.length_drop]; omega) (by rw [List.length_drop, decide_eq_true_eq]; omega)
  refine ⟨(bytes, entry.size), ?_⟩
  rw [value_readFile hg hentry hfile hsize (by omega), if_pos (activeNext_valid hlink), hq, hmod, hvalue]
  change value (readClusters g _ (g.clusterCount - (0 + q)) c' _ _ []) d >>= _ = _
  rw [hbytes]
  rfl

theorem value_readFile_end (hsize : offset < entry.size) (hbuffer : entry.size - offset ≤ bufferSize)
    {r : List UInt8 × Nat} (hr : value (readFile (some g) path offset true bufferSize) d = .ok r) :
    ∃ chain, FileChain g d entry.firstCluster entry.size chain := by
  have hpos := clusterBytes_pos hg
  rw [value_readFile hg hentry hfile hsize (by omega), Nat.min_eq_right hbuffer, decide_eq_true rfl] at hr
  split_ifs at hr
  cases hskip : value (skipClusters g (offset / g.clusterBytes) entry.firstCluster 0) d with
  | error e =>
    rw [hskip] at hr
    cases hr
  | ok s =>
    rw [hskip] at hr
    change value (readClusters g true _ s.1 _ _ []) d >>= _ = _ at hr
    cases hread : value (readClusters g true (g.clusterCount - s.2) s.1 (offset % g.clusterBytes)
        (entry.size - offset) []) d with
    | error e =>
      rw [hread] at hr
      cases hr
    | ok bytes =>
      obtain ⟨rest, hrest, hlow, hhigh⟩ :=
        readClusters_end hg _ _ _ _ _ _ (Nat.mod_lt _ hpos) (by omega) hread
      obtain ⟨before, hlen, hpath⟩ := skipClusters_path hg _ _ _ _ hskip hrest
      refine ⟨before ++ rest, Or.inr hpath, (eq_ceil_iff hpos (by omega)).mpr ?_⟩
      have hrestPos : 0 < rest.length := List.length_pos_of_mem hrest.head_mem
      have hdiv := Nat.div_add_mod' offset g.clusterBytes
      rw [List.length_append, hlen, Nat.add_mul, show offset / g.clusterBytes + rest.length - 1 =
        offset / g.clusterBytes + (rest.length - 1) by omega, Nat.add_mul]
      omega

end Slices

theorem exec_readFile {g : BpbGeometry} {n : Nat} (hg : g.Sound n) {path : Option CString} {dev : Device}
    (hready : dev.Ready g.totalSectors) {entry : DirectoryEntry}
    (hentry : value (resolveEntry (some g) path) dev.sectors = .ok entry) (hfile : entry.isDirectory = false)
    (offset bufferSize : Nat) {chain : List Nat} (hchain : FileChain g dev.sectors entry.firstCluster entry.size chain) :
    ∃ bytes, ((readFile (some g) path offset true bufferSize).exec dev).1 = .ok (bytes, entry.size) ∧
      bytes.length = min bufferSize (entry.size - offset) ∧
      bytes = ((chainBytes g dev.sectors chain).drop offset).take bytes.length := by
  have hreads := reads_readFile hg path offset true bufferSize
  obtain ⟨r, hr⟩ := value_readFile_ok hg hentry hfile offset bufferSize hchain
  obtain ⟨hexec, -⟩ := (Does.of_value hreads hr).exec hready rfl
  obtain ⟨-, entry', hentry', hsize, hlen, hbytes⟩ :=
    (wp_iff.mp (readFile_wp hg path offset true bufferSize dev)).1 r hexec
  obtain rfl := Except.ok.inj (hentry.symm.trans hentry')
  refine ⟨r.1, ?_, hlen, ?_⟩
  · rw [hexec, ← hsize]
  rcases hchain.1 with ⟨hzero, rfl⟩ | hpath
  · rw [List.length_eq_zero_iff.mp (show r.1.length = 0 by omega)]
    rfl
  · refine List.ext_getElem? fun j => ?_
    rw [List.getElem?_take]
    split_ifs with hj
    · rw [← hbytes j hj, List.getElem?_drop, fileByte_path hg hpath]
    · exact List.getElem?_eq_none (by omega)

/-- `read_file` returns exact slices of a file whose chain fits its size. It never leaves the volume,
and an answer that reaches the end of the file has seen the end of such a chain. -/
theorem readFile_slices (sector : Sector) (diskSectors : Nat) (g : BpbGeometry)
    (h : parseBpb sector diskSectors = some g) (path : Option CString) (dev : Device)
    (entry : DirectoryEntry) (hentry : value (resolveEntry (some g) path) dev.sectors = .ok entry)
    (hfile : entry.isDirectory = false) (offset bufferSize : Nat) :
    (dev.Ready g.totalSectors → ∀ chain,
      FileChain g dev.sectors entry.firstCluster entry.size chain →
      ∃ bytes, ((readFile (some g) path offset true bufferSize).exec dev).1 = .ok (bytes, entry.size) ∧
        bytes.length = min bufferSize (entry.size - offset) ∧
        bytes = ((chainBytes g dev.sectors chain).drop offset).take bytes.length) ∧
    Reads g.totalSectors (readFile (some g) path offset true bufferSize) ∧
    (offset < entry.size → entry.size - offset ≤ bufferSize →
      (∃ r, ((readFile (some g) path offset true bufferSize).exec dev).1 = .ok r) →
      ∃ chain, FileChain g dev.sectors entry.firstCluster entry.size chain) := by
  have hg := parseBpb_sound h
  have hreads := reads_readFile hg path offset true bufferSize
  refine ⟨fun hready chain hchain => exec_readFile hg hready hentry hfile offset bufferSize hchain, hreads, ?_⟩
  rintro hsize hbuffer ⟨r, hr⟩
  obtain ⟨hvalue, -⟩ := (wp_iff.mp (hreads.wp dev)).1 r hr
  exact value_readFile_end hg hentry hfile hsize hbuffer hvalue

def sliceDisk (lba : Nat) : Sector :=
  if lba = 32 ∨ lba = 544 then fun j =>
    [0xF8, 0xFF, 0xFF, 0x0F, 0xFF, 0xFF, 0xFF, 0x0F, 0xFF, 0xFF, 0xFF, 0x0F, 0xFF, 0xFF, 0xFF,
      0x0F].getD j.val 0
  else if lba = 1056 then fun j =>
    [0x41, 0x20, 0x20, 0x20, 0x20, 0x20, 0x20, 0x20, 0x20, 0x20, 0x20, 0x20, 0, 0, 0, 0, 0, 0, 0, 0, 0, 0,
      0, 0, 0, 0, 3, 0, 5, 0, 0, 0].getD j.val 0
  else if lba = 1057 then fun j => [1, 2, 3, 4, 5].getD j.val 0
  else Sector.zero

def sliceDevice : Device := ⟨sliceDisk, 66586, true, fun _ => .none, []⟩

theorem readFile_slices_small :
    ∃ bytes, ((readFile (some smallGeometry) (some [0x2F, 0x41]) 2 true 10).exec sliceDevice).1 =
      .ok (bytes, 5) ∧ bytes = [3, 4, 5] := by
  have hready : sliceDevice.Ready smallGeometry.totalSectors := ⟨⟨rfl, fun _ => rfl⟩, le_refl 66586⟩
  have hentry : value (resolveEntry (some smallGeometry) (some [0x2F, 0x41])) sliceDisk =
      .ok ⟨[0x41], false, 3, 5⟩ := by decide +kernel
  have hchain : FileChain smallGeometry sliceDisk 3 5 [3] :=
    ⟨Or.inr (.last (by decide +kernel)), by decide⟩
  obtain ⟨bytes, hread, hlen, hbytes⟩ := (readFile_slices smallBoot 66586 smallGeometry
    parseBpb_smallBoot (some [0x2F, 0x41]) sliceDevice ⟨[0x41], false, 3, 5⟩ hentry rfl 2 10).1
    hready [3] hchain
  refine ⟨bytes, hread, ?_⟩
  rw [hbytes, hlen]
  decide +kernel

end Linux95.Fat32
