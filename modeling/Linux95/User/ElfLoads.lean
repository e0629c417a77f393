import Linux95.User.PageRuns

/-! Loads of executables: which files are accepted, and when a load succeeds. -/

namespace Linux95.User
open Base LinkedTables Fat32 Memory Machine

/-- The inspection and the planning of a file stay inside it and below 2^64, whatever its bytes, and it is accepted when
it is an executable for this kernel. -/
structure InspectsExactly (bytes : List UInt8) : Prop where
  inspection : inspectElf64Strict (fun i => bytes.getD i 0) bytes.length =
    some (inspectElf64 (fun i => bytes.getD i 0) bytes.length)
  planning : buildLoadPlanStrict (fun i => bytes.getD i 0) bytes.length =
    some (buildLoadPlan (fun i => bytes.getD i 0) bytes.length)
  accepted : (∃ image, inspectElf64 (fun i => bytes.getD i 0) bytes.length = .ok image) ↔
    Executable (fun i => bytes.getD i 0) bytes.length
  /-- The pages that are planned for an accepted file. -/
  pages : ∀ image plans, inspectElf64 (fun i => bytes.getD i 0) bytes.length = .ok image →
    buildLoadPlan (fun i => bytes.getD i 0) bytes.length = .ok plans →
    ∀ part ∈ image.segments.zip plans, ∀ i < part.2.pageCount,
      pageStrict (fun i => bytes.getD i 0) bytes.length part.1 part.2 i =
        some (.ok (part.2.firstPage + i * pageSize,
          part.1.page (fun i => bytes.getD i 0) (part.2.firstPage + i * pageSize)))

def LoadsExactly (k : Kernel) : Prop :=
  ∀ vfs path slot table k', k.table.allocate = some (slot, table) →
    loadProcessImage vfs (some path) slot { k with table := table } = (.ok, k') →
    ∃ bytes heap files, readImage vfs (some path) k.heap k.files = (some (bytes, bytes.length), heap, files) ∧
      Executable (fun i => bytes.getD i 0) bytes.length ∧
      ImageLoaded k'.machine.memory (k'.process slot).pageTablePhysical fun i => bytes.getD i 0

theorem inspectsExactly_of {bytes : List UInt8} (hsize : bytes.length < 2 ^ 64) : InspectsExactly bytes := by
  constructor
  case inspection => exact inspectElf64Strict_eq ..
  case planning => exact buildLoadPlanStrict_eq hsize
  case accepted =>
    constructor
    · rintro ⟨image, himage⟩
      exact ((inspectElf64_iff hsize).mp himage).1
    · exact fun hfile => ⟨_, (inspectElf64_iff hsize).mpr ⟨hfile, rfl⟩⟩
  case pages =>
    intro image plans himage hplans part hpart i hi
    obtain ⟨hfile, rfl⟩ := (inspectElf64_iff hsize).mp himage
    rw [buildLoadPlan_of hsize hfile] at hplans
    obtain rfl := Except.ok.inj hplans
    rw [show (imageOf fun i => bytes.getD i 0).segments = (loadHeaders _).map Elf64ProgramHeader.segment from rfl,
      List.zip_map'] at hpart
    obtain ⟨h, hh, rfl⟩ := List.mem_map.mp hpart
    exact pageStrict_eq _ hsize (hfile.loadable h hh) hi

/-- Files are inspected safely and accepted exactly when they are executables for this kernel, and after any run of
processes a load that succeeds gives the new process the pages of the file and a blank stack. -/
theorem elf_loading_exact {k₀ : Kernel} (h₀ : k₀.Idle) (ops : List Kernel.Op) :
    (∀ bytes : List UInt8, bytes.length < 2 ^ 64 → InspectsExactly bytes) ∧ LoadsExactly (k₀.run ops) := by
  refine ⟨fun bytes hsize => inspectsExactly_of hsize, ?_⟩
  intro vfs path slot table k' hallocate hload
  have hconserved := (Kernel.run_conserved h₀.conserved ops).allocate hallocate
  exact loadProcessImage_ok hconserved.1.shaped vfs hload

/-- The small kernel loads the program, and its pages are those of the file. -/
theorem elf_loading_exact_small : Kernel.smallKernel.Idle ∧ Executable (fun i => tinyElf.getD i 0) tinyElf.length ∧
    LoadsExactly (Kernel.smallKernel.run [.load (fun _ => tinyBackend) tinyPath, .exit 0 3#64, .reap]) ∧
    ∃ table, Kernel.smallKernel.table.allocate = some (0, table) ∧ ∃ k',
      loadProcessImage (fun _ => tinyBackend) (some tinyPath) 0 { Kernel.smallKernel with table := table } = (.ok, k') ∧
      ImageLoaded k'.machine.memory (k'.process 0).pageTablePhysical fun i => tinyElf.getD i 0 := by
  obtain ⟨table, hallocate, hread, hok, -⟩ := Kernel.smallKernel_loads
  obtain ⟨bytes, heap, files, hbytes, hfile, himage⟩ := (elf_loading_exact Kernel.smallKernel_idle []).2
    (fun _ => tinyBackend) tinyPath 0 table _ hallocate (Prod.ext hok rfl)
  obtain rfl : tinyElf = bytes := congrArg Prod.fst (Option.some.inj (hread.symm.trans (congrArg Prod.fst hbytes)))
  exact ⟨Kernel.smallKernel_idle, hfile, (elf_loading_exact Kernel.smallKernel_idle _).2, table, hallocate, _,
    Prod.ext hok rfl, himage⟩

end Linux95.User
