import Mathlib.Data.List.TakeWhile
import Linux95.Vfs.Descriptors

/-! Runs of the descriptor tables. Each call meets a volume and a device of its own, so the
volume may be rewritten and requests may fail between any two calls. -/

namespace Linux95.Vfs
open Base Storage Fat32

section LowestFree
variable {inUse : Nat → Bool}

theorem lowestFree_some : ∀ {n i j : Nat}, lowestFree inUse n i = some j →
    i ≤ j ∧ j < i + n ∧ inUse j = false ∧ ∀ l, i ≤ l → l < j → inUse l = true := by
  intro n
  induction n with
  | zero => exact fun h => nomatch h
  | succ n ih =>
    intro i j h
    unfold lowestFree at h
    split_ifs at h with hi
    · obtain ⟨hij, hj, hfree, hlow⟩ := ih h
      refine ⟨by omega, by omega, hfree, fun l hl hlj => ?_⟩
      rcases Nat.eq_or_lt_of_le hl with rfl | hlt
      · exact hi
      · exact hlow l hlt hlj
    · obtain rfl := Option.some.inj h
      exact ⟨le_rfl, by omega, by simpa using hi, fun l hl hlj => by omega⟩

theorem lowestFree_none : ∀ {n i : Nat}, lowestFree inUse n i = none →
    ∀ l, i ≤ l → l < i + n → inUse l = true := by
  intro n
  induction n with
  | zero => exact fun _ l hl hl' => by omega
  | succ n ih =>
    intro i h l hl hl'
    unfold lowestFree at h
    split_ifs at h with hi
    rcases Nat.eq_or_lt_of_le hl with rfl | hlt
    · exact hi
    · exact ih h l hlt (by omega)

end LowestFree

@[simp] theorem Tables.setFile_files (t : Tables) (fd : Nat) (slot : FileDescriptor) :
    (t.setFile fd slot).files = Function.update t.files fd slot := rfl

@[simp] theorem Tables.setFile_directories (t : Tables) (fd : Nat) (slot : FileDescriptor) :
    (t.setFile fd slot).directories = t.directories := rfl

@[simp] theorem Tables.setDirectory_directories (t : Tables) (h : Nat) (slot : DirectoryHandle) :
    (t.setDirectory h slot).directories = Function.update t.directories h slot := rfl

@[simp] theorem Tables.setDirectory_files (t : Tables) (h : Nat) (slot : DirectoryHandle) :
    (t.setDirectory h slot).files = t.files := rfl

section Calls
variable {b : Backend} {t : Tables}

theorem validFileDescriptor_some {fd : Int} {i : Nat} (h : validFileDescriptor t fd = some i) :
    fd = i ∧ 3 ≤ i ∧ i < 64 ∧ (t.files i).inUse = true := by
  unfold validFileDescriptor at h
  split_ifs at h with h1 h2
  obtain rfl := Option.some.inj h
  exact ⟨by omega, by omega, by omega, h2⟩

theorem validDirHandle_some {handle : Int} {i : Nat} (h : validDirHandle t handle = some i) :
    handle = i ∧ i < 32 ∧ (t.directories i).inUse = true := by
  unfold validDirHandle at h
  split_ifs at h with h1 h2
  obtain rfl := Option.some.inj h
  exact ⟨by omega, by omega, h2⟩

/-- The outcomes of `open`: an error and the same tables, or the lowest free descriptor set up
for the file found at the path. -/
theorem openFile_cases (b : Backend) (path : Option CString) (t : Tables) :
    (∃ status, openFile b path t = (.error status, t) ∧
      ∀ safePath size, copyPath path = some safePath → stat b (some safePath) = .ok (false, size) →
        ∀ i, 3 ≤ i → i < 64 → (t.files i).inUse = true) ∨
    ∃ fd safePath size, copyPath path = some safePath ∧
      stat b (some safePath) = .ok (false, size) ∧
      lowestFree (fun i => (t.files i).inUse) 61 3 = some fd ∧
      openFile b path t = (.ok fd, t.setFile fd ⟨true, safePath, 0, size⟩) := by
  unfold openFile
  cases hp : copyPath path with
  | none => exact .inl ⟨_, rfl, fun _ _ h => nomatch h⟩
  | some safePath =>
    cases hs : stat b (some safePath) with
    | error status =>
      refine .inl ⟨status, by simp only [hs], fun p size h h' => ?_⟩
      rw [← Option.some.inj h, hs] at h'
      exact nomatch h'
    | ok info =>
      obtain ⟨isDirectory, size⟩ := info
      simp only [hs]
      cases isDirectory with
      | true =>
        refine .inl ⟨_, rfl, fun p size h h' => ?_⟩
        rw [← Option.some.inj h, hs] at h'
        exact nomatch h'
      | false =>
        cases hl : lowestFree (fun i => (t.files i).inUse) 61 3 with
        | none =>
          exact .inl ⟨_, rfl, fun _ _ _ _ i hi hi' => lowestFree_none hl i hi (by omega)⟩
        | some fd => exact .inr ⟨fd, safePath, size, rfl, hs, rfl, rfl⟩

theorem opendir_cases (b : Backend) (path : Option CString) (t : Tables) :
    (∃ status, opendir b path t = (.error status, t) ∧
      ∀ safePath size, copyPath path = some safePath → stat b (some safePath) = .ok (true, size) →
        ∀ i, i < 32 → (t.directories i).inUse = true) ∨
    ∃ handle safePath, copyPath path = some safePath ∧
      lowestFree (fun i => (t.directories i).inUse) 32 0 = some handle ∧
      opendir b path t = (.ok handle, t.setDirectory handle ⟨true, safePath, 0⟩) := by
  unfold opendir
  cases hp : copyPath path with
  | none => exact .inl ⟨_, rfl, fun _ _ h => nomatch h⟩
  | some safePath =>
    cases hs : stat b (some safePath) with
    | error status =>
      refine .inl ⟨status, by simp only [hs], fun p size h h' => ?_⟩
      rw [← Option.some.inj h, hs] at h'
      exact nomatch h'
    | ok info =>
      obtain ⟨isDirectory, size⟩ := info
      simp only [hs]
      cases isDirectory with
      | false =>
        refine .inl ⟨_, rfl, fun p size h h' => ?_⟩
        rw [← Option.some.inj h, hs] at h'
        exact nomatch h'
      | true =>
        cases hl : lowestFree (fun i => (t.directories i).inUse) 32 0 with
        | none => exact .inl ⟨_, rfl, fun _ _ _ _ i hi => lowestFree_none hl i (by omega) (by omega)⟩
        | some handle => exact .inr ⟨handle, safePath, rfl, rfl, rfl⟩

/-- The outcomes of `read`: an error and the same tables, or the bytes `read_file` found at the
offset and an offset that moved past them. -/
theorem read_cases (b : Backend) (fd : Int) (buffer : Bool) (size : Nat) (t : Tables) :
    (∃ status, read b fd buffer size t = (.error status, t)) ∨
    ∃ i bytes, validFileDescriptor t fd = some i ∧
      ((readFile b.vol (some (t.files i).path) (t.files i).offset buffer size).exec b.dev).1 =
        .ok (bytes, (t.files i).size) ∧
      bytes.length ≤ 0xFFFFFFFF - (t.files i).offset ∧
      read b fd buffer size t = (.ok bytes,
        t.setFile i { t.files i with offset := ((t.files i).offset + bytes.length) % 2 ^ 32 }) := by
  unfold read
  cases hv : validFileDescriptor t fd with
  | none => exact .inl ⟨_, rfl⟩
  | some i =>
    dsimp only
    cases hr : ((readFile b.vol (some (t.files i).path) (t.files i).offset buffer size).exec
        b.dev).1 with
    | error status => exact .inl ⟨status, rfl⟩
    | ok result =>
      obtain ⟨bytes, reported⟩ := result
      dsimp only
      by_cases hsize : reported ≠ (t.files i).size
      · rw [if_pos hsize]
        exact .inl ⟨_, rfl⟩
      · rw [if_neg hsize]
        push Not at hsize
        by_cases hlen : bytes.length > 0xFFFFFFFF - (t.files i).offset
        · rw [if_pos hlen]
          exact .inl ⟨_, rfl⟩
        · rw [if_neg hlen]
          exact .inr ⟨i, bytes, rfl, by rw [hr, hsize], by omega, rfl⟩

theorem readdir_cases (b : Backend) (handle : Int) (t : Tables) :
    (∃ result, readdir b handle t = (result, t)) ∨
    ∃ i entry, validDirHandle t handle = some i ∧ readdir b handle t = (.ok (some entry),
      t.setDirectory i { t.directories i with
        nextIndex := ((t.directories i).nextIndex + 1) % 2 ^ 32 }) := by
  unfold readdir
  cases hv : validDirHandle t handle with
  | none => exact .inl ⟨_, rfl⟩
  | some i =>
    dsimp only
    split
    · exact .inl ⟨_, rfl⟩
    · exact .inl ⟨_, rfl⟩
    · exact .inr ⟨i, _, rfl, rfl⟩

end Calls

def touchesFile : Call → Reply → Nat → Prop
  | .init, _, _ => True
  | .openFile _, .opened (.ok fd), i => i = fd
  | .read fd _ _, _, i => fd = i
  | .close fd, _, i => fd = i
  | _, _, _ => False

def touchesDirectory : Call → Reply → Nat → Prop
  | .init, _, _ => True
  | .opendir _, .opened (.ok handle), i => i = handle
  | .readdir handle, _, i => handle = i
  | .closedir handle, _, i => handle = i
  | _, _, _ => False

def Reply.failed : Reply → Prop
  | .done => False
  | .opened result => ∃ status, result = .error status
  | .bytes result => ∃ status, result = .error status
  | .info result => ∃ status, result = .error status
  | .entry result => ∃ status, result = .error status
  | .closed status => status ≠ .ok

structure StepLaw (b : Backend) (t : Tables) : Prop where
  openLowest : ∀ path fd, (step b (.openFile path) t).1 = .opened (.ok fd) →
    3 ≤ fd ∧ fd < 64 ∧ (t.files fd).inUse = false ∧ ∀ i, 3 ≤ i → i < fd → (t.files i).inUse = true
  openFree : ∀ path safePath size, copyPath path = some safePath →
    stat b (some safePath) = .ok (false, size) →
    (∃ i, 3 ≤ i ∧ i < 64 ∧ (t.files i).inUse = false) →
    ∃ fd, (step b (.openFile path) t).1 = .opened (.ok fd)
  opendirLowest : ∀ path handle, (step b (.opendir path) t).1 = .opened (.ok handle) →
    handle < 32 ∧ (t.directories handle).inUse = false ∧
      ∀ i, i < handle → (t.directories i).inUse = true
  opendirFree : ∀ path safePath size, copyPath path = some safePath →
    stat b (some safePath) = .ok (true, size) →
    (∃ i, i < 32 ∧ (t.directories i).inUse = false) →
    ∃ handle, (step b (.opendir path) t).1 = .opened (.ok handle)
  otherFiles : ∀ call i, ¬touchesFile call (step b call t).1 i →
    (step b call t).2.files i = t.files i
  otherDirectories : ∀ call i, ¬touchesDirectory call (step b call t).1 i →
    (step b call t).2.directories i = t.directories i
  failed : ∀ call, (step b call t).1.failed → (step b call t).2 = t

theorem close_cases (fd : Int) (t : Tables) :
    close fd t = (.invalidDescriptor, t) ∨
      ∃ i, validFileDescriptor t fd = some i ∧ close fd t = (.ok, t.setFile i .empty) := by
  unfold close
  cases hv : validFileDescriptor t fd with
  | none => exact .inl rfl
  | some i => exact .inr ⟨i, rfl, rfl⟩

theorem closedir_cases (handle : Int) (t : Tables) :
    closedir handle t = (.invalidHandle, t) ∨
      ∃ i, validDirHandle t handle = some i ∧
        closedir handle t = (.ok, t.setDirectory i .empty) := by
  unfold closedir
  cases hv : validDirHandle t handle with
  | none => exact .inl rfl
  | some i => exact .inr ⟨i, rfl, rfl⟩

/-- Every call either leaves both tables, clears them, or rewrites one slot it works on. -/
theorem step_cases (b : Backend) (call : Call) (t : Tables) :
    (call = .init ∧ (step b call t).2 = .initial) ∨
    (step b call t).2 = t ∨
    (¬(step b call t).1.failed ∧ ∃ i slot, touchesFile call (step b call t).1 i ∧
      (step b call t).2 = t.setFile i slot) ∨
    (¬(step b call t).1.failed ∧ ∃ i slot, touchesDirectory call (step b call t).1 i ∧
      (step b call t).2 = t.setDirectory i slot) := by
  cases call with
  | init => exact .inl ⟨rfl, rfl⟩
  | openFile path =>
    rcases openFile_cases b path t with ⟨status, h, -⟩ | ⟨fd, p, size, -, -, -, h⟩
    · exact .inr (.inl (by simp only [step, h]))
    · refine .inr (.inr (.inl ?_))
      simp only [step, h]
      exact ⟨fun hf => by simp [Reply.failed] at hf, fd, _, rfl, rfl⟩
  | read fd buffer size =>
    rcases read_cases b fd buffer size t with ⟨status, h⟩ | ⟨i, bytes, hv, -, -, h⟩
    · exact .inr (.inl (by simp only [step, h]))
    · refine .inr (.inr (.inl ?_))
      simp only [step, h]
      exact ⟨fun hf => by simp [Reply.failed] at hf, i, _, (validFileDescriptor_some hv).1, rfl⟩
  | close fd =>
    rcases close_cases fd t with h | ⟨i, hv, h⟩
    · exact .inr (.inl (by simp only [step, h]))
    · refine .inr (.inr (.inl ?_))
      simp only [step, h]
      exact ⟨fun hf => hf rfl, i, _, (validFileDescriptor_some hv).1, rfl⟩
  | fstat fd => exact .inr (.inl rfl)
  | opendir path =>
    rcases opendir_cases b path t with ⟨status, h, -⟩ | ⟨handle, p, -, -, h⟩
    · exact .inr (.inl (by simp only [step, h]))
    · refine .inr (.inr (.inr ?_))
      simp only [step, h]
      exact ⟨fun hf => by simp [Reply.failed] at hf, handle, _, rfl, rfl⟩
  | readdir handle =>
    rcases readdir_cases b handle t with ⟨result, h⟩ | ⟨i, entry, hv, h⟩
    · exact .inr (.inl (by simp only [step, h]))
    · refine .inr (.inr (.inr ?_))
      simp only [step, h]
      exact ⟨fun hf => by simp [Reply.failed] at hf, i, _, (validDirHandle_some hv).1, rfl⟩
  | closedir handle =>
    rcases closedir_cases handle t with h | ⟨i, hv, h⟩
    · exact .inr (.inl (by simp only [step, h]))
    · refine .inr (.inr (.inr ?_))
      simp only [step, h]
      exact ⟨fun hf => hf rfl, i, _, (validDirHandle_some hv).1, rfl⟩

theorem stepLaw (b : Backend) (t : Tables) : StepLaw b t where
  openLowest path fd h := by
    rcases openFile_cases b path t with ⟨status, ho, -⟩ | ⟨fd', p, size, -, -, hl, ho⟩
    · simp [step, ho] at h
    · simp only [step, ho, Reply.opened.injEq, Except.ok.injEq] at h
      obtain ⟨hlo, hhi, hfree, hlow⟩ := lowestFree_some (h ▸ hl)
      exact ⟨hlo, hhi, hfree, hlow⟩
  openFree path safePath size hp hs := by
    rintro ⟨i, hlo, hhi, hfree⟩
    rcases openFile_cases b path t with ⟨status, -, hfull⟩ | ⟨fd, p, size', -, -, -, ho⟩
    · have := hfull safePath size hp hs i hlo hhi
      simp [hfree] at this
    · exact ⟨fd, by simp only [step, ho]⟩
  opendirLowest path handle h := by
    rcases opendir_cases b path t with ⟨status, ho, -⟩ | ⟨handle', p, -, hl, ho⟩
    · simp [step, ho] at h
    · simp only [step, ho, Reply.opened.injEq, Except.ok.injEq] at h
      obtain ⟨-, hhi, hfree, hlow⟩ := lowestFree_some (h ▸ hl)
      exact ⟨by omega, hfree, fun i hi => hlow i (by omega) hi⟩
  opendirFree path safePath size hp hs := by
    rintro ⟨i, hhi, hfree⟩
    rcases opendir_cases b path t with ⟨status, -, hfull⟩ | ⟨handle, p, -, -, ho⟩
    · have := hfull safePath size hp hs i hhi
      simp [hfree] at this
    · exact ⟨handle, by simp only [step, ho]⟩
  otherFiles call i hi := by
    rcases step_cases b call t with ⟨rfl, -⟩ | h | ⟨-, j, slot, hj, h⟩ | ⟨-, j, slot, -, h⟩
    · exact absurd trivial hi
    · rw [h]
    · have hne : i ≠ j := fun hij => hi (hij ▸ hj)
      rw [h, Tables.setFile_files, Function.update_of_ne hne]
    · rw [h, Tables.setDirectory_files]
  otherDirectories call i hi := by
    rcases step_cases b call t with ⟨rfl, -⟩ | h | ⟨-, j, slot, -, h⟩ | ⟨-, j, slot, hj, h⟩
    · exact absurd trivial hi
    · rw [h]
    · rw [h, Tables.setFile_directories]
    · have hne : i ≠ j := fun hij => hi (hij ▸ hj)
      rw [h, Tables.setDirectory_directories, Function.update_of_ne hne]
  failed call hf := by
    rcases step_cases b call t with ⟨rfl, -⟩ | h | ⟨hn, -⟩ | ⟨hn, -⟩
    · exact hf.elim
    · exact h
    · exact absurd hf hn
    · exact absurd hf hn

/-- Every open file is positioned inside the size recorded when it was opened. -/
def Positioned (t : Tables) : Prop :=
  ∀ i, (t.files i).inUse = true → (t.files i).offset ≤ (t.files i).size ∧ (t.files i).size < 2 ^ 32

theorem positioned_initial : Positioned .initial := fun _ h => nomatch h

theorem stat_file {b : Backend} {p : CString} {size : Nat} (hp : copyPath (some p) = some p)
    (h : stat b (some p) = .ok (false, size)) : ∃ g entry, b.vol = some g ∧
      ((resolveEntry (some g) (some p)).exec b.dev).1 = .ok entry ∧ entry.isDirectory = false ∧
      entry.size = size := by
  unfold stat at h
  rw [hp] at h
  dsimp only at h
  cases hr : ((statPath b.vol (some p)).exec b.dev).1 with
  | error e =>
    rw [hr] at h
    exact nomatch h
  | ok info =>
    rw [hr] at h
    dsimp only at h
    rw [Except.ok.injEq, Prod.mk.injEq] at h
    cases hv : b.vol with
    | none =>
      rw [hv] at hr
      exact nomatch hr
    | some g =>
      rw [hv] at hr
      unfold statPath at hr
      dsimp only at hr
      by_cases hroot : isRootPath p
      · rw [if_pos hroot, Exec.exec_pure, Except.ok.injEq] at hr
        rw [← hr] at h
        exact nomatch h.1
      rw [if_neg hroot, Exec.exec_bind] at hr
      cases he : (resolveEntry (some g) (some p)).exec b.dev with
      | mk r dev' =>
        rw [he] at hr
        cases r with
        | error e => exact nomatch hr
        | ok entry =>
          simp only [Exec.exec_pure, Except.ok.injEq] at hr
          rw [← hr] at h
          exact ⟨g, entry, rfl, by rw [he], h.1, h.2⟩

theorem resolveEntry_value {b : Backend} {g : BpbGeometry} {p : CString} {entry : DirectoryEntry}
    (hvol : b.vol = some g) (h : ((resolveEntry (some g) (some p)).exec b.dev).1 = .ok entry) :
    value (resolveEntry (some g) (some p)) b.dev.sectors = .ok entry := by
  obtain ⟨sector, diskSectors, hg⟩ := b.accepted g hvol
  exact (reads_resolveEntry (parseBpb_sound hg) _).exec_ok h

theorem copyPath_idem {path : Option CString} {p : CString} (h : copyPath path = some p) :
    copyPath (some p) = some p := by
  cases path with
  | none => exact nomatch h
  | some source =>
    have htake : (source.takeWhile (· ≠ 0)).takeWhile (· ≠ 0) = source.takeWhile (· ≠ 0) :=
      List.takeWhile_idem
    unfold copyPath at h ⊢
    dsimp only at h ⊢
    split_ifs at h with h0 h127
    obtain rfl := Option.some.inj h
    rw [htake, if_neg h0, if_pos h127]

theorem readFile_ok {b : Backend} {p : CString} {offset size reported : Nat} {buffer : Bool}
    {bytes : List UInt8}
    (h : ((readFile b.vol (some p) offset buffer size).exec b.dev).1 = .ok (bytes, reported)) :
    ∃ g entry, b.vol = some g ∧ value (resolveEntry (some g) (some p)) b.dev.sectors = .ok entry ∧
      reported = entry.size ∧ bytes.length = min size (entry.size - offset) ∧
      ∀ j, j < bytes.length →
        fileByte g b.dev.sectors entry.firstCluster (offset + j) = bytes[j]? := by
  cases hv : b.vol with
  | none =>
    rw [hv] at h
    exact nomatch h
  | some g =>
    rw [hv] at h
    obtain ⟨sector, diskSectors, hg⟩ := b.accepted g hv
    have hread := readFile_wp (parseBpb_sound hg) (some p) offset buffer size b.dev
    obtain ⟨-, entry, hentry, hsize, hlen, hbytes⟩ := (wp_iff.mp hread).1 _ h
    exact ⟨g, entry, rfl, hentry, hsize, hlen, hbytes⟩

theorem positioned_setFile {t : Tables} {i : Nat} {slot : FileDescriptor} (ht : Positioned t)
    (hslot : slot.inUse = true → slot.offset ≤ slot.size ∧ slot.size < 2 ^ 32) :
    Positioned (t.setFile i slot) := by
  intro j
  by_cases hij : j = i
  · subst hij
    rw [Tables.setFile_files, Function.update_self]
    exact hslot
  · rw [Tables.setFile_files, Function.update_of_ne hij]
    exact ht j

theorem positioned_step {b : Backend} {t : Tables} (call : Call) (ht : Positioned t) :
    Positioned (step b call t).2 := by
  -- the calls on directory handles and `fstat` leave the file table alone
  have hsame : (∀ i, ¬touchesFile call (step b call t).1 i) → Positioned (step b call t).2 := by
    intro hno i
    rw [(stepLaw b t).otherFiles call i (hno i)]
    exact ht i
  cases call with
  | init => exact positioned_initial
  | openFile path =>
    rcases openFile_cases b path t with ⟨status, h, -⟩ | ⟨fd, p, size, hp, hs, -, h⟩
    · simpa only [step, h] using ht
    · obtain ⟨g, entry, hvol, hentry, -, hsize⟩ := stat_file (copyPath_idem hp) hs
      have hlt : size < 2 ^ 32 := hsize ▸ resolveEntry_size_lt (resolveEntry_value hvol hentry)
      simp only [step, h]
      exact positioned_setFile ht fun _ => ⟨Nat.zero_le _, hlt⟩
  | read fd buffer size =>
    rcases read_cases b fd buffer size t with ⟨status, h⟩ | ⟨i, bytes, hv, hr, -, h⟩
    · simpa only [step, h] using ht
    · obtain ⟨g, entry, -, -, hsize, hlen, -⟩ := readFile_ok hr
      obtain ⟨hle, hlt⟩ := ht i (validFileDescriptor_some hv).2.2.2
      have hnew : (t.files i).offset + bytes.length ≤ (t.files i).size := by omega
      simp only [step, h]
      refine positioned_setFile ht fun _ => ⟨?_, hlt⟩
      dsimp only
      rw [Nat.mod_eq_of_lt (by omega)]
      exact hnew
  | close fd =>
    rcases close_cases fd t with h | ⟨i, -, h⟩
    · simpa only [step, h] using ht
    · simp only [step, h]
      exact positioned_setFile ht fun hu => nomatch hu
  | fstat fd => exact hsame fun _ => id
  | opendir path => exact hsame fun _ => id
  | readdir handle => exact hsame fun _ => id
  | closedir handle => exact hsame fun _ => id

theorem positioned_run : ∀ (steps : List (Backend × Call)) {t : Tables}, Positioned t →
    Positioned (run steps t) := by
  intro steps
  induction steps with
  | nil => exact fun ht => ht
  | cons p steps ih => exact fun ht => ih (positioned_step p.2 ht)

def transcript : List (Backend × Call) → Tables → List (Call × Reply)
  | [], _ => []
  | (b, call) :: rest, t => (call, (step b call t).1) :: transcript rest (step b call t).2

def bytesOn (fd : Nat) : Call × Reply → List UInt8
  | (.read i _ _, .bytes (.ok bytes)) => if i = fd then bytes else []
  | _ => []

def bytesRead (fd : Nat) (steps : List (Backend × Call)) (t : Tables) : List UInt8 :=
  (transcript steps t).flatMap (bytesOn fd)

/-- A read on `fd` with room in its buffer returned nothing. -/
def ReachedEnd (fd : Nat) (steps : List (Backend × Call)) (t : Tables) : Prop :=
  ∃ buffer size, 0 < size ∧ (Call.read fd buffer size, Reply.bytes (.ok [])) ∈ transcript steps t

/-- No step remounts or rewrites the volume that `b` sees, nor closes `fd`. -/
def Undisturbed (b : Backend) (fd : Nat) (steps : List (Backend × Call)) : Prop :=
  ∀ p ∈ steps, p.1.vol = b.vol ∧ p.1.dev.sectors = b.dev.sectors ∧ p.2 ≠ .init ∧ p.2 ≠ .close fd

theorem step_slot {b : Backend} {t : Tables} {call : Call} {fd : Nat}
    (hused : (t.files fd).inUse = true) (hinit : call ≠ .init) (hclose : call ≠ .close fd) :
    ((step b call t).2.files fd = t.files fd ∧ bytesOn fd (call, (step b call t).1) = [] ∧
      ∀ buffer size, (call, (step b call t).1) ≠ (.read fd buffer size, .bytes (.ok []))) ∨
    ∃ buffer size bytes, call = .read fd buffer size ∧
      (step b call t).1 = .bytes (.ok bytes) ∧
      ((readFile b.vol (some (t.files fd).path) (t.files fd).offset buffer size).exec b.dev).1 =
        .ok (bytes, (t.files fd).size) ∧
      (step b call t).2.files fd =
        { t.files fd with offset := ((t.files fd).offset + bytes.length) % 2 ^ 32 } := by
  have hother := (stepLaw b t).otherFiles call fd
  cases call with
  | init => exact absurd rfl hinit
  | openFile path =>
    refine .inl ⟨hother fun htouch => ?_, rfl, fun _ _ h => nomatch h⟩
    -- a descriptor that is handed out was free
    have hfree := (stepLaw b t).openLowest path fd
    rcases openFile_cases b path t with ⟨status, h, -⟩ | ⟨fd', p, size, -, -, -, h⟩
    · simp only [step, h, touchesFile] at htouch
    · simp only [step, h, touchesFile] at htouch hfree
      have := (hfree (by rw [htouch])).2.2.1
      rw [hused] at this
      exact nomatch this
  | read fd' buffer size =>
    rcases read_cases b fd' buffer size t with ⟨status, h⟩ | ⟨i, bytes, hv, hr, -, h⟩
    · refine .inl ⟨by simp only [step, h], by simp only [step, h, bytesOn], fun _ _ heq => ?_⟩
      simp [step, h] at heq
    · obtain ⟨rfl, -, -, -⟩ := validFileDescriptor_some hv
      by_cases hi : i = fd
      · subst hi
        refine .inr ⟨buffer, size, bytes, rfl, by simp only [step, h], hr, ?_⟩
        simp only [step, h, Tables.setFile_files, Function.update_self]
      · have hi' : ((i : Nat) : Int) ≠ fd := by omega
        refine .inl ⟨hother hi', by simp only [step, h, bytesOn, if_neg hi'], fun _ _ heq => ?_⟩
        simp only [Prod.mk.injEq, Call.read.injEq] at heq
        exact hi' heq.1.1
  | close fd' => exact .inl ⟨hother fun h => hclose (by rw [h]), rfl, fun _ _ h => nomatch h⟩
  | fstat fd' => exact .inl ⟨hother id, rfl, fun _ _ h => nomatch h⟩
  | opendir path => exact .inl ⟨hother id, rfl, fun _ _ h => nomatch h⟩
  | readdir handle => exact .inl ⟨hother id, rfl, fun _ _ h => nomatch h⟩
  | closedir handle => exact .inl ⟨hother id, rfl, fun _ _ h => nomatch h⟩

theorem contents_drop {g : BpbGeometry} {disk : Nat → Sector} {first size offset : Nat}
    {bytes : List UInt8} (hlen : offset + bytes.length ≤ size)
    (hbytes : ∀ j, j < bytes.length → fileByte g disk first (offset + j) = bytes[j]?) :
    (fileContents g disk first size).drop offset =
      bytes.map some ++ (fileContents g disk first size).drop (offset + bytes.length) := by
  -- a read at `offset` splits the rest of the file into the bytes returned and what follows
  apply List.ext_getElem?
  intro j
  unfold fileContents
  by_cases hj : j < bytes.length
  · rw [List.getElem?_append_left (by simpa using hj), List.getElem?_drop, List.getElem?_map,
      List.getElem?_range (by omega), Option.map_some, hbytes j hj, List.getElem?_map,
      List.getElem?_eq_getElem hj, Option.map_some]
  · rw [List.getElem?_append_right (by simpa using hj), List.getElem?_drop, List.getElem?_drop,
      List.length_map, show offset + bytes.length + (j - bytes.length) = offset + j by omega]

/-- The reads on an open descriptor, from its offset on: the induction is on the run, and the
offset of the descriptor is where the bytes still to come begin. -/
theorem bytesRead_drop {b : Backend} {g : BpbGeometry} {p : CString} {entry : DirectoryEntry}
    (hvol : b.vol = some g)
    (hentry : value (resolveEntry (some g) (some p)) b.dev.sectors = .ok entry) (fd : Nat) :
    ∀ (steps : List (Backend × Call)) (t : Tables) (offset : Nat),
      t.files fd = ⟨true, p, offset, entry.size⟩ → offset ≤ entry.size → Undisturbed b fd steps →
      let rest := (fileContents g b.dev.sectors entry.firstCluster entry.size).drop offset
      (bytesRead fd steps t).map some <+: rest ∧
        (ReachedEnd fd steps t → (bytesRead fd steps t).map some = rest) := by
  have hsize := resolveEntry_size_lt hentry
  intro steps
  induction steps with
  | nil =>
    intro t offset _ _ _
    refine ⟨List.nil_prefix, ?_⟩
    rintro ⟨_, _, _, hmem⟩
    exact nomatch hmem
  | cons step' steps ih =>
    obtain ⟨b', call⟩ := step'
    intro t offset hslot hoff hund
    obtain ⟨⟨hvol', hsec, hinit, hclose⟩, hund'⟩ := List.forall_mem_cons.mp hund
    dsimp only at hvol' hsec hinit hclose
    have hused : (t.files fd).inUse = true := by rw [hslot]
    have hbytesRead : bytesRead fd ((b', call) :: steps) t =
        bytesOn fd (call, (step b' call t).1) ++ bytesRead fd steps (step b' call t).2 := rfl
    rcases step_slot hused hinit hclose with ⟨hsame, hnone, hnot⟩ |
      ⟨buffer, size, bytes, rfl, hreply, hread, hnew⟩
    · obtain ⟨hpre, hend⟩ := ih (step b' call t).2 offset (hsame.trans hslot) hoff hund'
      rw [hbytesRead, hnone, List.nil_append]
      refine ⟨hpre, ?_⟩
      rintro ⟨buffer, size, hpos, hmem⟩
      rcases List.mem_cons.mp hmem with heq | hmem
      · exact absurd heq.symm (hnot buffer size)
      · exact hend ⟨buffer, size, hpos, hmem⟩
    · rw [hslot] at hread hnew
      dsimp only at hread hnew
      obtain ⟨g', entry', hg', hentry', -, hlen, hbytes⟩ := readFile_ok hread
      -- the disk is the one that was opened, so the same entry is found again
      obtain rfl : g = g' := Option.some.inj (hvol.symm.trans (hvol'.symm.trans hg'))
      rw [hsec] at hbytes hentry'
      obtain rfl : entry = entry' := Except.ok.inj (hentry.symm.trans hentry')
      have hle : offset + bytes.length ≤ entry.size := by omega
      rw [Nat.mod_eq_of_lt (by omega)] at hnew
      obtain ⟨hpre, hend⟩ := ih (step b' (.read fd buffer size) t).2 (offset + bytes.length) hnew hle hund'
      have hsplit := contents_drop hle hbytes
      have hon : bytesOn fd (.read fd buffer size, (step b' (.read fd buffer size) t).1) = bytes := by
        rw [hreply]
        exact if_pos rfl
      dsimp only
      rw [hbytesRead, hon, hsplit, List.map_append]
      refine ⟨(List.prefix_append_right_inj _).mpr hpre, ?_⟩
      rintro ⟨buffer', size', hpos, hmem⟩
      rw [List.append_cancel_left_eq]
      rcases List.mem_cons.mp hmem with heq | hmem
      · -- an empty reply to a read with room: the offset is at the end of the file
        rw [hreply, Prod.mk.injEq, Call.read.injEq, Reply.bytes.injEq, Except.ok.injEq] at heq
        obtain ⟨⟨-, -, rfl⟩, rfl⟩ := heq
        have hnil : (fileContents g b.dev.sectors entry.firstCluster entry.size).drop
            (offset + ([] : List UInt8).length) = [] := by
          apply List.drop_eq_nil_of_le
          simp only [fileContents, List.length_map, List.length_range, List.length_nil] at hlen ⊢
          omega
        rw [hnil] at hpre ⊢
        exact List.prefix_nil.mp hpre
      · exact hend ⟨buffer', size', hpos, hmem⟩

/-- **VFS descriptors.** In every state a run reaches from `initialize`, open files are positioned
inside their size, the calls obey `StepLaw`, and once a file is opened there the reads on its
descriptor return a prefix of its contents, all of it when a read reaches the end. -/
theorem descriptor_runs (steps : List (Backend × Call)) :
    (∀ i, ((run steps .initial).files i).inUse = true →
      ((run steps .initial).files i).offset ≤ ((run steps .initial).files i).size) ∧
    (∀ b, StepLaw b (run steps .initial)) ∧
    ∀ b path fd, (step b (.openFile path) (run steps .initial)).1 = .opened (.ok fd) →
      ∃ g safePath entry, b.vol = some g ∧ copyPath path = some safePath ∧
        ((resolveEntry (some g) (some safePath)).exec b.dev).1 = .ok entry ∧
        ∀ later, Undisturbed b fd later →
          let opened := (step b (.openFile path) (run steps .initial)).2
          let contents := fileContents g b.dev.sectors entry.firstCluster entry.size
          (bytesRead fd later opened).map some <+: contents ∧
            (ReachedEnd fd later opened → (bytesRead fd later opened).map some = contents) := by
  refine ⟨fun i hi => (positioned_run steps positioned_initial i hi).1, fun b => stepLaw b _, ?_⟩
  intro b path fd hopen
  rcases openFile_cases b path (run steps .initial) with ⟨status, h, -⟩ |
    ⟨fd', p, size, hp, hs, -, h⟩
  · simp [step, h] at hopen
  · simp only [step, h, Reply.opened.injEq, Except.ok.injEq] at hopen
    subst hopen
    obtain ⟨g, entry, hvol, hentry, -, rfl⟩ := stat_file (copyPath_idem hp) hs
    refine ⟨g, p, entry, hvol, hp, hentry, fun later hlater => ?_⟩
    have hslot : ((run steps .initial).setFile fd' ⟨true, p, 0, entry.size⟩).files fd' =
        ⟨true, p, 0, entry.size⟩ := by
      rw [Tables.setFile_files, Function.update_self]
    simp only [step, h]
    exact bytesRead_drop hvol (resolveEntry_value hvol hentry) fd' later _ 0 hslot (Nat.zero_le _)
      hlater

def helloDisk (lba : Nat) : Sector :=
  let text (l : List UInt8) : Sector := fun j => l.getD j.val 0
  if lba = 32 ∨ lba = 544 then
    text [0xF8, 0xFF, 0xFF, 0x0F, 0xFF, 0xFF, 0xFF, 0x0F, 0xFF, 0xFF, 0xFF, 0x0F, 0xFF, 0xFF, 0xFF, 0x0F]
  else if lba = 1056 then
    text [0x48, 0x45, 0x4C, 0x4C, 0x4F, 0x20, 0x20, 0x20, 0x54, 0x58, 0x54, 0x20, 0, 0, 0, 0,
      0, 0, 0, 0, 0, 0, 0, 0, 0, 0, 3, 0, 5, 0, 0, 0]
  else if lba = 1057 then text [0x48, 0x65, 0x6C, 0x6C, 0x6F]
  else if lba = 0 then smallBoot
  else Sector.zero

theorem smallGeometry_accepted (g : BpbGeometry) (h : some smallGeometry = some g) :
    ∃ sector diskSectors, parseBpb sector diskSectors = some g :=
  ⟨smallBoot, 66586, Option.some.inj h ▸ parseBpb_smallBoot⟩

def helloBackend : Backend where
  vol := some smallGeometry
  dev := ⟨helloDisk, 66586, true, fun _ => .none, []⟩
  accepted := smallGeometry_accepted

def helloPath : CString := [0x2F, 0x68, 0x65, 0x6C, 0x6C, 0x6F, 0x2E, 0x74, 0x78, 0x74]

def helloReads : List (Backend × Call) := List.replicate 3 (helloBackend, .read 3 true 3)

theorem descriptor_runs_hello :
    (step helloBackend (.openFile (some helloPath)) .initial).1 = .opened (.ok 3) ∧
    bytesRead 3 helloReads (step helloBackend (.openFile (some helloPath)) .initial).2 =
      [0x48, 0x65, 0x6C, 0x6C, 0x6F] ∧
    ∃ entry : DirectoryEntry, fileContents smallGeometry helloDisk entry.firstCluster entry.size =
      [some 0x48, some 0x65, some 0x6C, some 0x6C, some 0x6F] := by
  have hopen : (step helloBackend (.openFile (some helloPath)) .initial).1 = .opened (.ok 3) := rfl
  have hbytes : bytesRead 3 helloReads
      (step helloBackend (.openFile (some helloPath)) .initial).2 =
        [0x48, 0x65, 0x6C, 0x6C, 0x6F] := by decide +kernel
  have hund : Undisturbed helloBackend 3 helloReads := by
    intro p hp
    rw [List.eq_of_mem_replicate hp]
    exact ⟨rfl, rfl, by decide, by decide⟩
  have hreplies : transcript helloReads
      (step helloBackend (.openFile (some helloPath)) .initial).2 =
        [(.read 3 true 3, .bytes (.ok [0x48, 0x65, 0x6C])),
          (.read 3 true 3, .bytes (.ok [0x6C, 0x6F])), (.read 3 true 3, .bytes (.ok []))] := by
    decide +kernel
  have hend : ReachedEnd 3 helloReads
      (step helloBackend (.openFile (some helloPath)) .initial).2 :=
    ⟨true, 3, by decide, by rw [hreplies]; exact .tail _ (.tail _ (.head _))⟩
  obtain ⟨g, p, entry, hvol, -, -, hreads⟩ := (descriptor_runs []).2.2 helloBackend _ 3 hopen
  obtain rfl := Option.some.inj hvol
  have hall := (hreads helloReads hund).2 hend
  exact ⟨hopen, hbytes, entry, hall.symm.trans (congrArg (List.map some) hbytes)⟩

end Linux95.Vfs
