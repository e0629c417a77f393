import Linux95.Fat32.Listings
import Linux95.Vfs.Runs

/-! The three ways to list a directory: `list_directory`, `read_directory_entry` and `readdir`. -/

namespace Linux95.Vfs
open Base Storage Fat32

/-- The drive answers every request for the mounted volume, and addresses it by 28 bits as
`valid_lba28` demands. -/
def Backend.Answers (b : Backend) : Prop :=
  ∀ g, b.vol = some g → b.dev.Ready g.totalSectors ∧ g.totalSectors ≤ 2 ^ 28

def readdirs (b : Backend) (handle : Int) : Nat → Tables → List (Except Status (Option FileEntry))
  | 0, _ => []
  | n + 1, t => (readdir b handle t).1 :: readdirs b handle n (readdir b handle t).2

theorem pathBody_takeWhile (path : CString) : pathBody (path.takeWhile (· ≠ 0)) = pathBody path := by
  cases path with
  | nil => rfl
  | cons c path =>
    by_cases hc : c = 0
    · subst hc
      rfl
    · rw [List.takeWhile_cons_of_pos (by simpa using hc)]
      unfold pathBody
      rw [List.headD_cons, List.headD_cons, List.tail_cons, List.tail_cons]
      split_ifs
      · exact List.takeWhile_idem
      · rw [List.takeWhile_cons_of_pos (by simpa using hc),
          List.takeWhile_cons_of_pos (by simpa using hc), List.takeWhile_idem]

theorem isRootPath_takeWhile (path : CString) : isRootPath (path.takeWhile (· ≠ 0)) = isRootPath path := by
  cases path with
  | nil => rfl
  | cons c path =>
    by_cases hc : c = 0
    · subst hc
      rfl
    · rw [List.takeWhile_cons_of_pos (by simpa using hc)]
      unfold isRootPath
      rw [List.headD_cons, List.headD_cons, List.tail_cons, List.tail_cons]
      cases path with
      | nil => rfl
      | cons c' path =>
        by_cases hc' : c' = 0
        · subst hc'
          rfl
        · rw [List.takeWhile_cons_of_pos (by simpa using hc'), List.headD_cons, List.headD_cons]

/-- A path names the same directory as the copy `opendir` keeps of it. -/
theorem listing_copyPath {path : Option CString} {safePath : CString} (h : copyPath path = some safePath)
    (g : BpbGeometry) (d : Disk) : listing g d (some safePath) = listing g d path := by
  cases path with
  | none => cases h
  | some path =>
    have htext : safePath = path.takeWhile (· ≠ 0) := by
      unfold copyPath at h
      dsimp only at h
      split_ifs at h
      exact (Option.some.inj h).symm
    unfold listing resolveDirectoryCluster resolveEntry
    dsimp only
    rw [htext, isRootPath_takeWhile, pathBody_takeWhile]

section Readdir
variable {b : Backend} {g : BpbGeometry} (hvol : b.vol = some g) (hready : b.dev.Ready g.totalSectors)
include hvol hready

theorem readDirectoryEntry_exec (path : Option CString) {index : Nat} (hindex : index < 2 ^ 32) :
    ((readDirectoryEntry b.vol path index).exec b.dev).1 =
      listed (listing g b.dev.sectors path) index := by
  obtain ⟨sector, diskSectors, hparse⟩ := b.accepted g hvol
  have hg := parseBpb_sound hparse
  have hreads : Reads g.totalSectors (readDirectoryEntry (some g) path index) :=
    .bind (reads_resolveDirectoryCluster hg path) fun _ =>
      .bind (reads_walkClusters hg _ _ _ _ _) fun _ => .pure _
  rw [hvol]
  exact ((Does.of_value hreads (value_readDirectoryEntry hg b.dev.sectors path hindex)).exec
    hready rfl).1

theorem readdir_eq {path : CString} {handle k : Nat} {t : Tables} (hhandle : handle < 32)
    (hk : k < 2 ^ 32) (hslot : t.directories handle = ⟨true, path, k⟩) :
    readdir b handle t = (listed (listing g b.dev.sectors (some path)) k,
      if k < (listing g b.dev.sectors (some path)).1.length then
        t.setDirectory handle ⟨true, path, (k + 1) % 2 ^ 32⟩
      else t) := by
  have hvalid : validDirHandle t handle = some handle := by
    unfold validDirHandle
    rw [if_neg (by omega), Int.toNat_natCast, hslot]
    rfl
  unfold readdir
  rw [hvalid]
  dsimp only
  rw [hslot]
  dsimp only
  rw [readDirectoryEntry_exec hvol hready (some path) hk]
  generalize listing g b.dev.sectors (some path) = l
  by_cases hin : k < l.1.length
  · rw [if_pos hin, show listed l k = .ok (some l.1[k]) from
      listed_inside l.2 (List.getElem?_eq_getElem hin)]
  · rw [if_neg hin, show listed l k = if l.2 = .ok then .ok none else .error l.2 from
      listed_past l.2 (Nat.le_of_not_lt hin)]
    split_ifs <;> rfl

theorem readdirs_eq {path : CString} {handle : Nat} (hhandle : handle < 32)
    (hcount : (listing g b.dev.sectors (some path)).1.length < 2 ^ 32) : ∀ n k t,
    k ≤ (listing g b.dev.sectors (some path)).1.length → t.directories handle = ⟨true, path, k⟩ →
    readdirs b handle n t =
      (List.range n).map fun j => listed (listing g b.dev.sectors (some path)) (k + j)
  | 0, _, _, _, _ => rfl
  | n + 1, k, t, hk, hslot => by
    rw [List.range_succ_eq_map, List.map_cons, List.map_map, readdirs, Nat.add_zero,
      readdir_eq hvol hready hhandle (by omega) hslot]
    congr 1
    dsimp only
    split_ifs with hin
    · rw [readdirs_eq hhandle hcount n (k + 1) _ hin ?_]
      · refine List.map_congr_left fun j _ => ?_
        rw [Function.comp_apply, Nat.succ_eq_add_one, Nat.add_assoc, Nat.add_comm 1 j]
      · rw [Tables.setDirectory_directories, Function.update_self, Nat.mod_eq_of_lt (by omega)]
    · -- the end, or the failure, is met again and again
      rw [readdirs_eq hhandle hcount n k t hk hslot]
      refine List.map_congr_left fun j _ => ?_
      have hpast : ∀ i, k ≤ i → listed (listing g b.dev.sectors (some path)) i =
          if (listing g b.dev.sectors (some path)).2 = .ok then .ok none
          else .error (listing g b.dev.sectors (some path)).2 :=
        fun i hi => listed_past _ ((Nat.le_of_not_lt hin).trans hi)
      rw [Function.comp_apply, hpast _ (by omega), hpast _ (by omega)]

end Readdir

theorem opendir_unmounted {b : Backend} (hvol : b.vol = none) (path : Option CString) (t : Tables) :
    ∃ status, opendir b path t = (.error status, t) := by
  have hstat : ∀ p, ∃ status, stat b p = .error status := by
    intro p
    unfold stat
    rw [hvol]
    cases copyPath p with
    | none => exact ⟨_, rfl⟩
    | some p => exact ⟨_, rfl⟩
  unfold opendir
  cases copyPath path with
  | none => exact ⟨_, rfl⟩
  | some safePath =>
    obtain ⟨status, hs⟩ := hstat (some safePath)
    dsimp only
    rw [hs]
    exact ⟨_, rfl⟩

/-- The three listings agree: the entries come in the same order, and past the last one the indexed
and the handle's listing report how the streaming one ended. -/
theorem listings_agree (b : Backend) (hb : b.Answers) (path : Option CString) :
    ∃ entries status,
      ((listDirectory b.vol path (some collect) []).exec b.dev).1 = .ok (entries, status) ∧
      (∀ i, i < 2 ^ 32 →
        (∀ entry, entries[i]? = some entry →
          ((readDirectoryEntry b.vol path i).exec b.dev).1 = .ok (some entry)) ∧
        (entries.length ≤ i → ((readDirectoryEntry b.vol path i).exec b.dev).1 =
          if status = .ok then .ok none else .error status)) ∧
      ∀ t t' handle, opendir b path t = (.ok handle, t') → ∀ n i, i < n →
        (∀ entry, entries[i]? = some entry →
          (readdirs b handle n t')[i]? = some (.ok (some entry))) ∧
        (entries.length ≤ i → (readdirs b handle n t')[i]? =
          some (if status = .ok then .ok none else .error status)) := by
  cases hvol : b.vol with
  | none =>
    refine ⟨[], .notMounted, rfl, fun i _ => ⟨fun entry h => (nomatch h), fun _ => ?_⟩, ?_⟩
    · rfl
    · intro t t' handle hopen
      obtain ⟨status, herror⟩ := opendir_unmounted hvol path t
      rw [herror] at hopen
      cases hopen
  | some g =>
    obtain ⟨hready, hlba⟩ := hb g hvol
    obtain ⟨sector, diskSectors, hparse⟩ := b.accepted g hvol
    have hg := parseBpb_sound hparse
    have hlist := (does_listDirectory hg b.dev.sectors path).exec hready rfl
    refine ⟨_, _, hlist.1, fun i hi => ?_, ?_⟩
    · have hread := readDirectoryEntry_exec hvol hready path hi
      rw [hvol] at hread
      rw [hread]
      exact ⟨fun entry h => listed_inside _ h, fun h => listed_past _ h⟩
    · intro t t' handle hopen n i hi
      rcases opendir_cases b path t with ⟨status, herror, -⟩ | ⟨handle', safePath, hcopy, hfree, hok⟩
      · rw [herror] at hopen
        cases hopen
      · rw [hok] at hopen
        obtain ⟨hhandle, rfl⟩ := Prod.mk.inj hopen
        obtain rfl := Except.ok.inj hhandle
        obtain ⟨-, hlt, -⟩ := lowestFree_some hfree
        have hslot : (t.setDirectory handle' ⟨true, safePath, 0⟩).directories handle' =
            ⟨true, safePath, 0⟩ := by
          rw [Tables.setDirectory_directories, Function.update_self]
        have hcount := length_listing_lt hg b.dev.sectors (some safePath) hlba
        have hreplies := readdirs_eq hvol hready (by omega) hcount n 0 _ (Nat.zero_le _) hslot
        rw [hreplies, List.getElem?_map, List.getElem?_range hi, listing_copyPath hcopy,
          Option.map_some, Nat.zero_add]
        exact ⟨fun entry h => congrArg some (listed_inside _ h), fun h => congrArg some (listed_past _ h)⟩

theorem helloBackend_answers : helloBackend.Answers := by
  intro g hvol
  obtain rfl := Option.some.inj hvol
  exact ⟨⟨⟨rfl, fun _ => rfl⟩, le_refl 66586⟩, by decide⟩

theorem listings_agree_hello :
    ∃ entries, ((listDirectory (some smallGeometry) (some [0x2F]) (some collect) []).exec
        helloBackend.dev).1 = .ok (entries, .ok) ∧
      entries = [⟨[0x48, 0x45, 0x4C, 0x4C, 0x4F, 0x2E, 0x54, 0x58, 0x54], false, 5⟩] ∧
      ((readDirectoryEntry (some smallGeometry) (some [0x2F]) 0).exec helloBackend.dev).1 =
        .ok entries[0]? := by
  obtain ⟨entries, status, hlist, hindexed, -⟩ :=
    listings_agree helloBackend helloBackend_answers (some [0x2F])
  have hshown : ((listDirectory (some smallGeometry) (some [0x2F]) (some collect) []).exec
      helloBackend.dev).1 =
        .ok ([⟨[0x48, 0x45, 0x4C, 0x4C, 0x4F, 0x2E, 0x54, 0x58, 0x54], false, 5⟩], .ok) := by
    decide +kernel
  obtain ⟨rfl, rfl⟩ := Prod.mk.inj (Except.ok.inj (hlist.symm.trans hshown))
  exact ⟨_, hshown, rfl, (hindexed 0 (by decide)).1 _ rfl⟩

def unendedDisk (lba : Nat) : Sector := if lba = 1056 then fun _ => 0xE5 else Sector.zero

def unendedBackend : Backend where
  vol := some smallGeometry
  dev := ⟨unendedDisk, 66586, true, fun _ => .none, []⟩
  accepted := smallGeometry_accepted

/-- After a listing that fails, `readdir` reports the failure and no end. -/
theorem readdir_reports_failure :
    unendedBackend.Answers ∧
    ((listDirectory unendedBackend.vol (some [0x2F]) (some collect) []).exec unendedBackend.dev).1 =
      .ok ([], .corrupt) ∧
    (opendir unendedBackend (some [0x2F]) .initial).1 = .ok 0 ∧
    readdirs unendedBackend 0 1 (opendir unendedBackend (some [0x2F]) .initial).2 ≠ [.ok none] := by
  refine ⟨?_, by decide +kernel, by decide +kernel, by decide +kernel⟩
  intro g hvol
  obtain rfl := Option.some.inj hvol
  exact ⟨⟨⟨rfl, fun _ => rfl⟩, le_refl 66586⟩, by decide⟩

end Linux95.Vfs
