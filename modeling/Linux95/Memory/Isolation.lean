import Linux95.Memory.Queries

/-! Any number of user address spaces, created, destroyed and filled in any order. -/

namespace Linux95.Memory
open Base LinkedTables Machine

def pageNumber (va : Word) : Nat := va.toNat / 4096 % 2 ^ 36

structure UserPage where
  address : Word
  inRange : userImageBase.toNat ≤ address.toNat ∧ address.toNat < userImageLimit.toNat ∨
    userStackTop.toNat - userStackPages * pageSize ≤ address.toNat ∧ address.toNat < userStackTop.toNat

section Addresses

theorem pageKey_eq_iff {va va' : Word} : pageKey va = pageKey va' ↔ pageNumber va = pageNumber va' := by
  unfold pageKey pageNumber
  rw [PageKey.mk.injEq, Fin.ext_iff, Fin.ext_iff, Fin.ext_iff, Fin.ext_iff]
  unfold pml4Index pdptIndex pdIndex ptIndex
  simp only [tableIndex_val]
  omega

theorem inUserSlot_iff {va : Word} :
    (pageKey va).InUserSlot ↔ va.toNat / 2 ^ 39 % 512 = 128 ∨ va.toNat / 2 ^ 39 % 512 = 255 := by
  have himage : imageSlot.val = 128 := by decide
  have hstack : stackSlot.val = 255 := by decide
  unfold PageKey.InUserSlot pageKey
  dsimp only
  rw [Fin.ext_iff, Fin.ext_iff, himage, hstack]
  unfold pml4Index
  rw [tableIndex_val]

theorem UserPage.inUserSlot (page : UserPage) : (pageKey page.address).InUserSlot := by
  have h := page.inRange
  have hbase : userImageBase.toNat = 0x400000000000 := by decide
  have hlimit : userImageLimit.toNat = 0x400100000000 := by decide
  have htop : userStackTop.toNat = 0x7FFFFFF00000 := by decide
  rw [hbase, hlimit, htop] at h
  unfold userStackPages pageSize at h
  rw [inUserSlot_iff]
  omega

theorem frame_offset {frame va : Word} (h : isPageAligned frame = true) :
    (frame &&& addressMask ||| va &&& 0xFFF#64).toNat = frame.toNat % 2 ^ 52 + va.toNat % 4096 := by
  have hlow : frame &&& 0xFFF#64 = 0#64 := by
    unfold isPageAligned at h
    exact eq_of_beq h
  have hmask : frame &&& addressMask = frame &&& 0xFFFFFFFFFFFFF#64 := by
    have hsplit : (0xFFFFFFFFFFFFF#64 : Word) = addressMask ||| 0xFFF#64 := by decide
    rw [hsplit, BitVec.and_or_distrib_left, hlow, BitVec.or_zero]
  have hdisjoint : frame &&& addressMask &&& (va &&& 0xFFF#64) = 0#64 := by
    have hzero : addressMask &&& 0xFFF#64 = 0#64 := by decide
    rw [BitVec.and_comm va, ← BitVec.and_assoc, BitVec.and_assoc frame, hzero, BitVec.and_zero,
      BitVec.zero_and]
  have hframe : (frame &&& addressMask).toNat = frame.toNat % 2 ^ 52 := by
    rw [hmask, BitVec.toNat_and]
    exact Nat.and_two_pow_sub_one_eq_mod frame.toNat 52
  have hoffset : (va &&& 0xFFF#64).toNat = va.toNat % 4096 := by
    rw [BitVec.toNat_and]
    exact Nat.and_two_pow_sub_one_eq_mod va.toNat 12
  have hbound : frame.toNat % 2 ^ 52 + va.toNat % 4096 < 2 ^ 64 := by omega
  rw [← BitVec.add_eq_or_of_and_eq_zero _ _ hdisjoint, BitVec.toNat_add, hframe, hoffset,
    Nat.mod_eq_of_lt hbound]

end Addresses

inductive Op
  | create (i : Nat)
  | destroy (i : Nat)
  | map (i : Nat) (page : UserPage) (frame : Word) (writable executable : Bool)

def Op.space : Op → Nat
  | create i => i
  | destroy i => i
  | map i _ _ _ _ => i

/-- The machine with the `root_physical` of every `UserAddressSpace`. `mapped` records what was mapped
successfully since a space was created, page by page. -/
structure AddressSpaces where
  machine : Machine
  roots : Nat → Word
  mapped : Nat → Nat → Option Leaf

namespace AddressSpaces

def boot (m : Machine) : AddressSpaces := ⟨m, fun _ => invalidAddress, fun _ _ => none⟩

def create (s : AddressSpaces) (i : Nat) : AddressSpaces where
  machine := s.machine.createUserAddressSpace.2
  roots := Function.update s.roots i (s.machine.createUserAddressSpace.1.getD invalidAddress)
  mapped := Function.update s.mapped i fun _ => none

def destroy (s : AddressSpaces) (i : Nat) : AddressSpaces :=
  if s.roots i = invalidAddress ∨ s.roots i = 0#64 then s
  else
    { machine := destroyUserAddressSpace (s.roots i) s.machine
      roots := Function.update s.roots i invalidAddress
      mapped := Function.update s.mapped i fun _ => none }

def record (mapped : Nat → Nat → Option Leaf) (i : Nat) (va : Word) (l : Leaf) : Nat → Nat → Option Leaf :=
  Function.update mapped i (Function.update (mapped i) (pageNumber va) (some l))

def mapResult (s : AddressSpaces) (i : Nat) (page : UserPage) (frame : Word) (writable executable : Bool) :
    Bool × Machine :=
  s.machine.mapUserPage (s.roots i) page.address frame writable executable

def map (s : AddressSpaces) (i : Nat) (page : UserPage) (frame : Word) (writable executable : Bool) : AddressSpaces :=
  { s with
    machine := (s.mapResult i page frame writable executable).2
    mapped :=
      if (s.mapResult i page frame writable executable).1 then
        record s.mapped i page.address ⟨frame, writable, executable⟩
      else s.mapped }

def step (s : AddressSpaces) : Op → AddressSpaces
  | .create i => s.create i
  | .destroy i => s.destroy i
  | .map i page frame writable executable => s.map i page frame writable executable

def run (s : AddressSpaces) (ops : List Op) : AddressSpaces := ops.foldl step s

def Live (s : AddressSpaces) (i : Nat) : Prop := s.roots i ≠ invalidAddress

def query (s : AddressSpaces) (i : Nat) (va : Word) : Bool × PageInfo :=
  queryPage s.machine.memory (s.roots i) va

def queryKernel (s : AddressSpaces) (va : Word) : Bool × PageInfo :=
  queryPage s.machine.memory s.machine.rootPhysical va

def liveRoots (s : AddressSpaces) : Set Word := { r | ∃ i, s.Live i ∧ s.roots i = r }

structure Recorded (memory : PhysicalMemory) (root : Word) (mapped : Nat → Option Leaf) : Prop where
  views : ∀ va, (pageKey va).InUserSlot →
    view memory root (pageKey va) = (mapped (pageNumber va)).map Leaf.entry
  outside : ∀ va, ¬ (pageKey va).InUserSlot → mapped (pageNumber va) = none
  aligned : ∀ n l, mapped n = some l → isPageAligned l.frame = true

structure Good (kernel : Set Word) (reference : PhysicalMemory) (s : AddressSpaces) : Prop where
  shaped : Shaped s.machine s.liveRoots kernel reference
  distinct : ∀ i j, s.Live i → s.roots i = s.roots j → i = j
  recorded : ∀ i, s.Live i → Recorded s.machine.memory (s.roots i) (s.mapped i)

variable {s s' : AddressSpaces} {kernel : Set Word} {reference : PhysicalMemory}

theorem mem_liveRoots {i : Nat} (hi : s.Live i) : s.roots i ∈ s.liveRoots := ⟨i, hi, rfl⟩

theorem Recorded.congr {roots : Set Word} {m m' : Machine} {root : Word} {mapped : Nat → Option Leaf}
    (h : Recorded m.memory root mapped) (hviews : SameViews roots m m') (hroot : root ∈ roots) :
    Recorded m'.memory root mapped :=
  ⟨fun va hva => (hviews root hroot (pageKey va) hva).trans (h.views va hva), h.outside, h.aligned⟩

theorem recorded_empty {memory : PhysicalMemory} {root : Word}
    (h : ∀ k : PageKey, k.InUserSlot → view memory root k = none) :
    Recorded memory root fun _ => none :=
  ⟨fun va hva => h (pageKey va) hva, fun _ _ => rfl, fun _ _ hl => (nomatch hl)⟩

def OnlyAt (i : Nat) (s s' : AddressSpaces) : Prop :=
  ∀ j, j ≠ i → s'.roots j = s.roots j ∧ s'.mapped j = s.mapped j

theorem OnlyAt.live {i j : Nat} (h : OnlyAt i s s') (hj : j ≠ i) : s'.Live j ↔ s.Live j := by
  unfold Live
  rw [(h j hj).1]

theorem Good.of_onlyAt {i : Nat} (h : s.Good kernel reference) (honly : OnlyAt i s s')
    (hshaped : Shaped s'.machine s'.liveRoots kernel reference)
    (hothers : ∀ j, j ≠ i → s.Live j → Recorded s'.machine.memory (s.roots j) (s.mapped j))
    (hnew : s'.Live i → (∀ j, j ≠ i → s.Live j → s.roots j ≠ s'.roots i) ∧
      Recorded s'.machine.memory (s'.roots i) (s'.mapped i)) :
    s'.Good kernel reference := by
  -- it is enough to look at the space the operation is about
  refine ⟨hshaped, ?_, ?_⟩
  · intro j k hj hjk
    by_cases hji : j = i <;> by_cases hki : k = i
    · rw [hji, hki]
    · subst hji
      have hk : s.Live k := (honly.live hki).mp (by unfold Live; rw [← hjk]; exact hj)
      exact absurd ((honly k hki).1.symm.trans hjk.symm) ((hnew hj).1 k hki hk)
    · subst hki
      have hk : s'.Live k := by
        unfold Live
        rw [← hjk]
        exact hj
      exact absurd ((honly j hji).1.symm.trans hjk) ((hnew hk).1 j hji ((honly.live hji).mp hj))
    · rw [(honly j hji).1, (honly k hki).1] at hjk
      exact h.distinct j k ((honly.live hji).mp hj) hjk
  · intro j hj
    by_cases hji : j = i
    · subst hji
      exact (hnew hj).2
    · rw [(honly j hji).1, (honly j hji).2]
      exact hothers j hji ((honly.live hji).mp hj)

theorem create_onlyAt (s : AddressSpaces) (i : Nat) : OnlyAt i s (s.create i) := by
  intro j hj
  exact ⟨Function.update_of_ne hj _ _, Function.update_of_ne hj _ _⟩

theorem destroy_onlyAt (s : AddressSpaces) (i : Nat) : OnlyAt i s (s.destroy i) := by
  intro j hj
  unfold destroy
  split
  · exact ⟨rfl, rfl⟩
  · exact ⟨Function.update_of_ne hj _ _, Function.update_of_ne hj _ _⟩

theorem map_onlyAt (s : AddressSpaces) (i : Nat) (page : UserPage) (frame : Word)
    (writable executable : Bool) : OnlyAt i s (s.map i page frame writable executable) := by
  intro j hj
  refine ⟨rfl, ?_⟩
  unfold map record
  dsimp only
  split
  · exact Function.update_of_ne hj _ _
  · rfl

theorem shaped_mono {m : Machine} {roots roots' : Set Word} (h : Shaped m roots kernel reference)
    (hsub : roots' ⊆ roots) : Shaped m roots' kernel reference :=
  (Frees.refl m).shaped h hsub (fun _ hx => (nomatch hx)) fun _ hx => (nomatch hx)

theorem create_good (h : s.Good kernel reference) (i : Nat) : (s.create i).Good kernel reference := by
  have honly := create_onlyAt s i
  rcases createUserAddressSpace_spec h.shaped with
    ⟨m', hresult, hshaped, hsteady, -⟩ | ⟨c, m', hresult, hc, hshaped, hsteady, -, -, -, hempty⟩
  · have hmachine : (s.create i).machine = m' := by
      unfold create
      rw [hresult]
    have hroot : (s.create i).roots i = invalidAddress := by
      unfold create
      rw [hresult]
      exact Function.update_self ..
    apply h.of_onlyAt honly
    · rw [hmachine]
      apply shaped_mono hshaped
      rintro r ⟨j, hj, rfl⟩
      have hji : j ≠ i := by
        rintro rfl
        exact hj hroot
      rw [(honly j hji).1]
      exact mem_liveRoots ((honly.live hji).mp hj)
    · intro j hji hj
      rw [hmachine]
      exact (h.recorded j hj).congr hsteady.views (mem_liveRoots hj)
    · intro hlive
      exact absurd hroot hlive
  · have hmachine : (s.create i).machine = m' := by
      unfold create
      rw [hresult]
    have hroot : (s.create i).roots i = c := by
      unfold create
      rw [hresult]
      exact Function.update_self ..
    have hmapped : (s.create i).mapped i = fun _ => none := Function.update_self ..
    apply h.of_onlyAt honly
    · rw [hmachine]
      apply shaped_mono hshaped
      rintro r ⟨j, hj, rfl⟩
      by_cases hji : j = i
      · rw [hji, hroot]
        exact Or.inl rfl
      · rw [(honly j hji).1]
        exact Or.inr (mem_liveRoots ((honly.live hji).mp hj))
    · intro j hji hj
      rw [hmachine]
      exact (h.recorded j hj).congr hsteady.views (mem_liveRoots hj)
    · intro hlive
      rw [hroot, hmapped, hmachine]
      refine ⟨?_, recorded_empty hempty⟩
      rintro j - hj rfl
      exact (h.shaped.taken _ (mem_liveRoots hj) _ (h.shaped.mem_held _)).2.1 hc

theorem live_valid (h : s.Good kernel reference) {i : Nat} (hi : s.Live i) :
    ¬ (s.roots i = invalidAddress ∨ s.roots i = 0#64) := by
  rintro (hzero | hzero)
  · exact hi hzero
  · exact Allocator.managed_ne_zero
      (h.shaped.taken _ (mem_liveRoots hi) _ (h.shaped.mem_held _)).1 hzero

theorem destroy_good (h : s.Good kernel reference) (i : Nat) : (s.destroy i).Good kernel reference := by
  by_cases hi : s.Live i
  · have honly := destroy_onlyAt s i
    have hspec := destroyUserAddressSpace_spec h.shaped (mem_liveRoots hi)
    have hroot : (s.destroy i).roots i = invalidAddress := by
      unfold destroy
      rw [if_neg (live_valid h hi)]
      exact Function.update_self ..
    have hmachine : (s.destroy i).machine = destroyUserAddressSpace (s.roots i) s.machine := by
      unfold destroy
      rw [if_neg (live_valid h hi)]
    have hlive : ∀ j, (s.destroy i).Live j → j ≠ i := by
      rintro j hj rfl
      exact hj hroot
    apply h.of_onlyAt honly
    · rw [hmachine]
      apply hspec.shaped h.shaped
      · rintro r ⟨j, hj, rfl⟩
        rw [(honly j (hlive j hj)).1]
        exact mem_liveRoots ((honly.live (hlive j hj)).mp hj)
      · exact fun x hx => (h.shaped.taken _ (mem_liveRoots hi) x hx).2.2
      · -- The tables of the other spaces are others.
        rintro x hx r ⟨j, hj, rfl⟩ hx'
        have hji := hlive j hj
        have hj' := (honly.live hji).mp hj
        rw [(honly j hji).1] at hx'
        have hroots := h.shaped.held_inj (mem_liveRoots hj') (mem_liveRoots hi) hx' hx
        exact hji (h.distinct j i hj' hroots)
    · intro j hji hj
      rw [hmachine]
      exact (h.recorded j hj).congr (hspec.views s.liveRoots) (mem_liveRoots hj)
    · intro hnew
      exact absurd hroot hnew
  · unfold destroy
    unfold Live at hi
    rw [if_pos (Or.inl (not_not.mp hi))]
    exact h

theorem mapUserPage_dead {m : Machine} (va frame : Word) (writable executable : Bool) :
    m.mapUserPage invalidAddress va frame writable executable = (false, m) := by
  unfold mapUserPage
  rw [if_pos (Or.inl rfl)]

theorem recorded_record {roots : Set Word} {m m' : Machine} {root : Word}
    {mapped : Nat → Option Leaf} {l : Leaf} {page : UserPage} (h : Recorded m.memory root mapped)
    (hroot : root ∈ roots) (hmaps : Maps roots root (pageKey page.address) l m m')
    (hframe : isPageAligned l.frame = true) :
    Recorded m'.memory root (Function.update mapped (pageNumber page.address) (some l)) := by
  constructor
  · intro va hva
    rw [hmaps.2 root hroot (pageKey va) hva]
    by_cases hsame : pageNumber va = pageNumber page.address
    · rw [if_pos ⟨rfl, pageKey_eq_iff.mpr hsame⟩, hsame, Function.update_self]
      rfl
    · rw [if_neg fun hat => hsame (pageKey_eq_iff.mp hat.2), Function.update_of_ne hsame]
      exact h.views va hva
  · intro va hva
    have hsame : pageNumber va ≠ pageNumber page.address := by
      intro heq
      rw [pageKey_eq_iff.mpr heq] at hva
      exact hva page.inUserSlot
    rw [Function.update_of_ne hsame]
    exact h.outside va hva
  · intro n l' hl'
    by_cases hn : n = pageNumber page.address
    · rw [hn, Function.update_self] at hl'
      rw [← Option.some.inj hl']
      exact hframe
    · rw [Function.update_of_ne hn] at hl'
      exact h.aligned n l' hl'

theorem map_outcome (h : s.Good kernel reference) {i : Nat} (hi : s.Live i) (page : UserPage)
    (frame : Word) (writable executable : Bool) :
    Outcome s.liveRoots kernel reference (s.roots i) (pageKey page.address)
      ⟨frame, writable, executable⟩ s.machine (s.mapResult i page frame writable executable) :=
  mapUserPage_spec h.shaped (mem_liveRoots hi) page.inUserSlot frame writable executable

theorem map_dead {i : Nat} (hi : ¬ s.Live i) (page : UserPage) (frame : Word)
    (writable executable : Bool) : s.map i page frame writable executable = s := by
  have hresult : s.mapResult i page frame writable executable = (false, s.machine) := by
    unfold mapResult
    rw [not_not.mp hi, mapUserPage_dead]
  unfold map
  rw [hresult]
  rfl

theorem map_views (h : s.Good kernel reference) (i : Nat) (page : UserPage) (frame : Word)
    (writable executable : Bool) {j : Nat} (hji : j ≠ i) (hj : s.Live j) (k : PageKey)
    (hk : k.InUserSlot) :
    view (s.map i page frame writable executable).machine.memory (s.roots j) k =
      view s.machine.memory (s.roots j) k := by
  by_cases hi : s.Live i
  · have hroots : s.roots j ≠ s.roots i := fun heq => hji (h.distinct j i hj heq)
    have hviews := (map_outcome h hi page frame writable executable).views
    show view (s.mapResult i page frame writable executable).2.memory (s.roots j) k = _
    cases hresult : (s.mapResult i page frame writable executable).1 with
    | true =>
      rw [hresult] at hviews
      rw [hviews.2 (s.roots j) (mem_liveRoots hj) k hk, if_neg fun hat => hroots hat.1]
    | false =>
      rw [hresult] at hviews
      exact hviews (s.roots j) (mem_liveRoots hj) k hk
  · rw [map_dead hi]

theorem map_good (h : s.Good kernel reference) (i : Nat) (page : UserPage) (frame : Word)
    (writable executable : Bool) : (s.map i page frame writable executable).Good kernel reference := by
  by_cases hi : s.Live i
  · have houtcome := map_outcome h hi page frame writable executable
    apply h.of_onlyAt (map_onlyAt s i page frame writable executable) houtcome.shaped
    · intro j hji hj
      obtain ⟨hviews, houtside, haligned⟩ := h.recorded j hj
      refine ⟨fun va hva => ?_, houtside, haligned⟩
      rw [map_views h i page frame writable executable hji hj (pageKey va) hva]
      exact hviews va hva
    · intro _
      refine ⟨fun j hji hj heq => hji (h.distinct j i hj heq), ?_⟩
      have hviews := houtcome.views
      have hbefore := h.recorded i hi
      unfold map
      dsimp only
      cases hresult : (s.mapResult i page frame writable executable).1 with
      | true =>
        rw [hresult] at hviews
        rw [if_pos rfl]
        unfold record
        rw [Function.update_self]
        exact recorded_record hbefore (mem_liveRoots hi) hviews (mapUserPage_checked hresult).2
      | false =>
        rw [hresult] at hviews
        exact hbefore.congr hviews (mem_liveRoots hi)
  · rw [map_dead hi]
    exact h

theorem step_good (h : s.Good kernel reference) (op : Op) : (s.step op).Good kernel reference := by
  cases op with
  | create i => exact create_good h i
  | destroy i => exact destroy_good h i
  | map i page frame writable executable => exact map_good h i page frame writable executable

theorem step_kernelRoot (h : s.Good kernel reference) (op : Op) :
    (s.step op).machine.kernelRoot = s.machine.kernelRoot := by
  cases op with
  | create i =>
    show s.machine.createUserAddressSpace.2.kernelRoot = _
    rcases createUserAddressSpace_spec h.shaped with
      ⟨m', hresult, -, hsteady, -⟩ | ⟨c, m', hresult, -, -, hsteady, -⟩ <;>
    · rw [hresult]
      exact hsteady.kernelRoot
  | destroy i =>
    show (s.destroy i).machine.kernelRoot = _
    by_cases hi : s.Live i
    · unfold destroy
      rw [if_neg (live_valid h hi)]
      exact (destroyUserAddressSpace_spec h.shaped (mem_liveRoots hi)).kernelRoot
    · unfold destroy
      rw [if_pos (Or.inl (not_not.mp hi))]
  | map i page frame writable executable =>
    show (s.map i page frame writable executable).machine.kernelRoot = _
    by_cases hi : s.Live i
    · exact (map_outcome h hi page frame writable executable).grows.kernelRoot
    · rw [map_dead hi]

theorem step_onlyAt (s : AddressSpaces) (op : Op) : OnlyAt op.space s (s.step op) := by
  cases op with
  | create i => exact create_onlyAt s i
  | destroy i => exact destroy_onlyAt s i
  | map i page frame writable executable => exact map_onlyAt s i page frame writable executable

end AddressSpaces

/-- The kernel as it is when the first space is created: its two user slots are empty, and its tables
are not in the hands of the allocator. -/
structure KernelReady (m : Machine) : Prop where
  imageAbsent : has (m.memory m.rootPhysical imageSlot) pagePresent = false
  stackAbsent : has (m.memory m.rootPhysical stackSlot) pagePresent = false
  kept : ∀ p ∈ kernelPages m.memory m.rootPhysical, p ∉ m.allocator.free

namespace AddressSpaces

structure Running (m : Machine) (s : AddressSpaces) : Prop where
  good : s.Good (kernelPages m.memory m.rootPhysical) m.memory
  kernelRoot : s.machine.kernelRoot = m.kernelRoot

variable {m : Machine} {s : AddressSpaces}

theorem Running.rootPhysical (h : s.Running m) : s.machine.rootPhysical = m.rootPhysical :=
  Machine.rootPhysical_congr h.kernelRoot

theorem boot_running (hm : KernelReady m) : (boot m).Running m := by
  have hdead : ∀ i, ¬ (boot m).Live i := fun i hi => hi rfl
  refine ⟨⟨?_, fun i j hi => absurd hi (hdead i), fun i hi => absurd hi (hdead i)⟩, rfl⟩
  have hempty : ∀ r, r ∉ (boot m).liveRoots := by
    rintro r ⟨i, hi, -⟩
    exact hdead i hi
  constructor
  case unshared => exact fun hpath => absurd hpath.1 (hempty _)
  case taken => exact fun r hr => absurd hr (hempty r)
  case inner => exact fun r hr => absurd hr (hempty r)
  case leaf => exact fun r hr => absurd hr (hempty r)
  case shared => exact fun r hr => absurd hr (hempty r)
  case kept => exact fun p hp => ⟨rfl, hm.kept p hp⟩
  case root => exact kernelPages_root m.memory m.rootPhysical

theorem step_running (h : s.Running m) (op : Op) : (s.step op).Running m :=
  ⟨step_good h.good op, (step_kernelRoot h.good op).trans h.kernelRoot⟩

theorem run_running (h : s.Running m) (ops : List Op) : (s.run ops).Running m := by
  induction ops generalizing s with
  | nil => exact h
  | cons op ops ih => exact ih (step_running h op)

theorem Running.queryKernel (h : s.Running m) (va : Word) :
    s.queryKernel va = queryPage m.memory m.rootPhysical va := by
  have hshaped := h.good.shaped
  unfold AddressSpaces.queryKernel
  rw [← h.rootPhysical] at hshaped ⊢
  exact hshaped.queryPage_kernel va

theorem Running.query (h : s.Running m) {i : Nat} (hi : s.Live i) (va : Word) :
    (pageKey va).InUserSlot ∧
        s.query i va = (true, leafInfo va ((s.mapped i (pageNumber va)).map Leaf.entry)) ∨
      ¬ (pageKey va).InUserSlot ∧ s.mapped i (pageNumber va) = none ∧
        s.query i va = (true, (queryPage m.memory m.rootPhysical va).2.withoutUser) := by
  have hshaped := h.good.shaped
  have hrecorded := h.good.recorded i hi
  by_cases hva : (pageKey va).InUserSlot
  · refine Or.inl ⟨hva, ?_⟩
    unfold AddressSpaces.query
    rw [queryPage_user hshaped (mem_liveRoots hi) hva, hrecorded.views va hva]
  · refine Or.inr ⟨hva, hrecorded.outside va hva, ?_⟩
    have hslots : ¬ (pml4Index va = imageSlot ∨ pml4Index va = stackSlot) := hva
    rw [not_or] at hslots
    have hentry := hshaped.shared _ (mem_liveRoots hi) (pml4Index va) hslots.1 hslots.2
    have hkernel : s.machine.memory m.rootPhysical = m.memory m.rootPhysical :=
      (hshaped.kept _ (kernelPages_root m.memory m.rootPhysical)).1
    rw [h.rootPhysical, ← hkernel] at hentry
    have hquery : s.queryKernel va = queryPage s.machine.memory m.rootPhysical va := by
      unfold AddressSpaces.queryKernel
      rw [h.rootPhysical]
    rw [← h.queryKernel va, hquery]
    exact queryPage_shared (hshaped.root_aligned (mem_liveRoots hi))
      (rootPhysical_aligned m) hentry

/-- What the spaces may access in one state: the pages on record and nothing else. The physical address
space has 52 bits. -/
structure Isolated (s : AddressSpaces) : Prop where
  access : ∀ i va, s.Live i →
    ((s.query i va).2.user = true ↔ ∃ l, s.mapped i (pageNumber va) = some l)
  mapping : ∀ i va l, s.Live i → s.mapped i (pageNumber va) = some l →
    (s.query i va).1 = true ∧ (s.query i va).2.present = true ∧
      (s.query i va).2.writable = l.writable ∧ (s.query i va).2.executable = l.executable ∧
      (s.query i va).2.physical.toNat = l.frame.toNat % 2 ^ 52 + va.toNat % 4096
  kernelHalf : ∀ i (va : Word), s.Live i → 2 ^ 64 - 2 ^ 47 ≤ va.toNat → (s.query i va).2.user = false
  kernelPage : ∀ i va, s.Live i → (s.queryKernel va).2.present = true →
    s.query i va = (true, (s.queryKernel va).2.withoutUser)

theorem leafInfo_entry (va : Word) (l : Leaf) (h : isPageAligned l.frame = true) :
    (leafInfo va (some l.entry)).present = true ∧ (leafInfo va (some l.entry)).user = true ∧
      (leafInfo va (some l.entry)).writable = l.writable ∧
      (leafInfo va (some l.entry)).executable = l.executable ∧
      (leafInfo va (some l.entry)).physical.toNat = l.frame.toNat % 2 ^ 52 + va.toNat % 4096 := by
  unfold leafInfo
  dsimp only
  rw [l.restrict]
  refine ⟨rfl, rfl, rfl, rfl, ?_⟩
  show (l.entry &&& addressMask ||| va &&& 0xFFF#64).toNat = _
  rw [l.entry_has.2, frame_offset h]

theorem kernel_slot_absent (hm : KernelReady m) {va : Word} (hva : (pageKey va).InUserSlot) :
    (queryPage m.memory m.rootPhysical va).2.present = false := by
  have habsent : has (m.memory m.rootPhysical (pml4Index va)) pagePresent = false := by
    have hslot : pml4Index va = imageSlot ∨ pml4Index va = stackSlot := hva
    rcases hslot with hslot | hslot
    · rw [hslot]
      exact hm.imageAbsent
    · rw [hslot]
      exact hm.stackAbsent
  rw [queryPage_aligned (rootPhysical_aligned m)]
  unfold queryPml4
  dsimp only
  rw [habsent]
  rfl

theorem Running.isolated (hm : KernelReady m) (h : s.Running m) : s.Isolated := by
  constructor
  case access =>
    intro i va hi
    rcases h.query hi va with ⟨hva, hquery⟩ | ⟨hva, hnone, hquery⟩
    · rw [hquery]
      cases hl : s.mapped i (pageNumber va) with
      | none => exact ⟨fun huser => (nomatch huser), fun ⟨l, hl⟩ => (nomatch hl)⟩
      | some l =>
        have hinfo := leafInfo_entry va l ((h.good.recorded i hi).aligned _ l hl)
        exact ⟨fun _ => ⟨l, rfl⟩, fun _ => hinfo.2.1⟩
    · rw [hquery, hnone]
      exact ⟨fun huser => (nomatch huser), fun ⟨l, hl⟩ => (nomatch hl)⟩
  case mapping =>
    intro i va l hi hl
    rcases h.query hi va with ⟨hva, hquery⟩ | ⟨hva, hnone, hquery⟩
    · have hinfo := leafInfo_entry va l ((h.good.recorded i hi).aligned _ l hl)
      rw [hquery, hl]
      exact ⟨rfl, hinfo.1, hinfo.2.2⟩
    · rw [hnone] at hl
      cases hl
  case kernelHalf =>
    intro i va hi hhigh
    rcases h.query hi va with ⟨hva, hquery⟩ | ⟨hva, hnone, hquery⟩
    · rw [inUserSlot_iff] at hva
      have hlt := va.isLt
      omega
    · rw [hquery]
      rfl
  case kernelPage =>
    intro i va hi hpresent
    rw [h.queryKernel va] at hpresent ⊢
    rcases h.query hi va with ⟨hva, hquery⟩ | ⟨hva, hnone, hquery⟩
    · rw [kernel_slot_absent hm hva] at hpresent
      cases hpresent
    · exact hquery

theorem query_dead {i : Nat} (hi : ¬ s.Live i) (va : Word) : s.query i va = (false, .absent) := by
  unfold AddressSpaces.query
  rw [not_not.mp hi, queryPage_levels]
  rfl

theorem Running.query_congr {s' : AddressSpaces} (h : s.Running m)
    (h' : s'.Running m) {j : Nat} (hroot : s'.roots j = s.roots j) (hmapped : s'.mapped j = s.mapped j)
    (va : Word) : s'.query j va = s.query j va := by
  have hlive : s'.Live j ↔ s.Live j := by
    unfold Live
    rw [hroot]
  by_cases hj : s.Live j
  · rcases h.query hj va with ⟨hva, hquery⟩ | ⟨hva, -, hquery⟩ <;>
      rcases h'.query (hlive.mpr hj) va with ⟨hva', hquery'⟩ | ⟨hva', -, hquery'⟩
    · rw [hquery, hquery', hmapped]
    · exact absurd hva hva'
    · exact absurd hva' hva
    · rw [hquery, hquery']
  · rw [query_dead hj, query_dead fun hj' => hj (hlive.mp hj')]

/-- Over every sequence of operations the spaces are isolated, from each other and from the kernel, and
a step of one space changes nothing that `query_page` says of the others, of the kernel, or of any
space when a page cannot be mapped. -/
theorem address_spaces_isolated (hm : KernelReady m) (ops : List Op) :
    ((boot m).run ops).Isolated ∧ ∀ op : Op,
      (∀ j va, j ≠ op.space →
        (((boot m).run ops).step op).query j va = ((boot m).run ops).query j va) ∧
      (∀ va, (((boot m).run ops).step op).queryKernel va = ((boot m).run ops).queryKernel va) ∧
      ∀ i page frame writable executable, op = .map i page frame writable executable →
        (((boot m).run ops).mapResult i page frame writable executable).1 = false →
        ∀ j va, (((boot m).run ops).step op).query j va = ((boot m).run ops).query j va := by
  have hrunning := run_running (boot_running hm) ops
  refine ⟨hrunning.isolated hm, ?_⟩
  intro op
  have hstep := step_running hrunning op
  have honly := step_onlyAt ((boot m).run ops) op
  refine ⟨?_, ?_, ?_⟩
  · intro j va hj
    exact hrunning.query_congr hstep (honly j hj).1 (honly j hj).2 va
  · intro va
    rw [hstep.queryKernel, hrunning.queryKernel]
  · rintro i page frame writable executable rfl hfailed j va
    apply hrunning.query_congr hstep rfl
    show (map _ i page frame writable executable).mapped j = _
    unfold map
    rw [hfailed]
    rfl

/-- Sixty-four pages, two of them reserved, and a kernel root without entries in the second. -/
def smallMachine : Machine where
  allocator :=
    { pageCount := 64
      used := fun i => decide (i < 2)
      reserved := fun i => decide (i < 2)
      freeCount := 62
      nextHint := 0
      releases := []
      pageCount_le := by decide
      reserved_used := fun _ h => h
      zero_reserved := rfl }
  memory := fun _ _ => 0#64
  kernelRoot := pageAddress 1
  nxeEnabled := true

theorem smallMachine_ready : KernelReady smallMachine := by
  refine ⟨by decide, by decide, ?_⟩
  rintro p ⟨va, hp⟩
  have habsent : (!has 0#64 pagePresent) = true := by decide
  have hwalk : walk smallMachine.memory va smallMachine.rootPhysical = [pageAddress 1] :=
    if_pos habsent
  rw [hwalk] at hp
  rw [List.mem_singleton.mp hp]
  show pageAddress 1 ∉ smallMachine.allocator.free
  rw [Allocator.mem_free_pageAddress (by decide)]
  decide

def firstImagePage : UserPage := ⟨userImageBase, by decide⟩

/-- Two spaces, and a page mapped in the second of them. -/
theorem address_spaces_isolated_small :
    KernelReady smallMachine ∧
      ((boot smallMachine).run
        [.create 0, .create 1, .map 1 firstImagePage 0x5000#64 true false]).Isolated ∧
      ((boot smallMachine).run
        [.create 0, .create 1, .map 1 firstImagePage 0x5000#64 true false]).mapped 1
          (pageNumber firstImagePage.address) = some ⟨0x5000#64, true, false⟩ :=
  ⟨smallMachine_ready, (address_spaces_isolated smallMachine_ready _).1, by decide +kernel⟩

end AddressSpaces

end Linux95.Memory
