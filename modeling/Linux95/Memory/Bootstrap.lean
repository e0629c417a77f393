import Linux95.Memory.BootMap
import Linux95.Memory.TableTrees
import Linux95.User.ProcessTable

/-! The tables the kernel starts with: `memory/virtual.cpp` over the pool of `linker.ld`. -/

namespace Linux95.Memory
open Base LinkedTables
open User (hhdmBase)

def kernelRegionBase : Word := 0xFFFFFFFF80000000#64

def poolPages : Nat := 80

/-- `.bootstrap_pt_pool`: whole pages of the kernel image, which ends below 2 MiB. -/
structure Pool where
  start : Word
  aligned : start.toNat % pageSize = 0
  low : 0x100000 ≤ start.toNat
  high : start.toNat + poolPages * pageSize ≤ 0x200000

def Pool.stop (pool : Pool) : Word := pool.start + BitVec.ofNat 64 (poolPages * pageSize)

/-- Physical memory and the globals of the mapper. `taken` records the pages of the pool that were handed out. -/
structure Bootstrap where
  memory : PhysicalMemory
  poolNext : Word
  taken : List Word
  bootstrapCr3 : Word
  hhdmLimit : Nat

namespace Bootstrap

/-- `allocate_bootstrap_table`, where 0 says that the pool is used up. -/
def allocateBootstrapTable (pool : Pool) (b : Bootstrap) : Word × Bootstrap :=
  let address := pool.start + b.poolNext
  if address < pool.start ∨ address > pool.stop ∨ pool.stop - address < 0x1000#64 then (0#64, b)
  else
    (address, { b with memory := Function.update b.memory address fun _ => 0#64
                       poolNext := b.poolNext + 0x1000#64
                       taken := b.taken ++ [address] })

def getOrCreateChild (pool : Pool) (b : Bootstrap) (parent : Word) (index : Index) : Word × Bootstrap :=
  let entry := b.memory parent index
  if has entry pagePresent then (if has entry pageHuge then 0#64 else entry &&& addressMask, b)
  else
    let (child, b) := b.allocateBootstrapTable pool
    if child = 0#64 then (0#64, b)
    else (child, { b with memory := store b.memory parent index (child ||| pagePresent ||| pageWritable) })

/-- The last step of `map_huge_2m`, in the page directory. -/
def writePde (b : Bootstrap) (pd virtual physical : Word) : Bool × Bootstrap :=
  let entry := b.memory pd (pdIndex virtual)
  let desired := physical &&& twoMiBAddressMask ||| pagePresent ||| pageWritable ||| pageHuge
  if has entry pagePresent then (entry = desired, b)
  else (true, { b with memory := store b.memory pd (pdIndex virtual) desired })

def mapHuge2m (pool : Pool) (b : Bootstrap) (root virtual physical : Word) : Bool × Bootstrap :=
  if virtual &&& 0x1FFFFF#64 ≠ 0#64 ∨ physical &&& 0x1FFFFF#64 ≠ 0#64 then (false, b)
  else
    let (pdpt, b) := b.getOrCreateChild pool root (pml4Index virtual)
    if pdpt = 0#64 then (false, b)
    else
      let (pd, b) := b.getOrCreateChild pool pdpt (pdptIndex virtual)
      if pd = 0#64 then (false, b) else b.writePde pd virtual physical

def mapDirect (pool : Pool) (root : Word) (limit physical : Nat) (b : Bootstrap) : Bool × Bootstrap :=
  if physical < limit then
    let (mapped, b) := b.mapHuge2m pool root (hhdmBase + BitVec.ofNat 64 physical) (BitVec.ofNat 64 physical)
    if !mapped then (false, b) else mapDirect pool root limit (physical + hugePageSize) b
  else (true, b)
termination_by limit - physical
decreasing_by
  unfold hugePageSize
  omega

def prepareBootstrap (pool : Pool) (b : Bootstrap) (boot : BootInfo) : Bool × Bootstrap :=
  let b := { b with poolNext := 0#64, taken := [], bootstrapCr3 := 0#64, hhdmLimit := 0 }
  let maximum := maximumUsablePhysicalAddress boot
  if maximum = 0 then (false, b)
  else if maximum > bootstrapHhdmLimit then (false, b)
  else
    let roundedLimit := alignUp maximum hugePageSize
    if roundedLimit = uint64Max ∨ roundedLimit > bootstrapHhdmLimit then (false, b)
    else
      let (root, b) := b.allocateBootstrapTable pool
      if root = 0#64 then (false, b)
      else
        let (mapped, b) := b.mapHuge2m pool root 0#64 0#64
        if !mapped then (false, b)
        else
          let (mapped, b) := b.mapHuge2m pool root kernelRegionBase 0#64
          if !mapped then (false, b)
          else
            let (mapped, b) := mapDirect pool root roundedLimit 0 b
            if !mapped then (false, b)
            else (true, { b with bootstrapCr3 := root, hhdmLimit := roundedLimit })

section Pages
variable {pool : Pool} {b : Bootstrap} {n k m : Nat} {contents : Nat → Index → Word} {index : Index} {word : Word}

def poolPage (pool : Pool) (k : Nat) : Word := pageAddress (pool.start.toNat / pageSize + k)

theorem poolPage_lt (pool : Pool) (hk : k < poolPages) : pool.start.toNat / pageSize + k < 2 ^ 24 := by
  have hhigh := pool.high
  unfold poolPages pageSize at *
  omega

theorem poolPage_toNat (pool : Pool) (hk : k < poolPages) :
    (poolPage pool k).toNat = pool.start.toNat + k * pageSize := by
  have haligned := pool.aligned
  unfold poolPage
  rw [Allocator.pageAddress_toNat (poolPage_lt pool hk)]
  unfold pageSize at *
  omega

theorem poolPage_mask (pool : Pool) (hk : k < poolPages) : poolPage pool k &&& addressMask = poolPage pool k :=
  Allocator.pageAddress_mask (poolPage_lt pool hk)

theorem poolPage_ne_zero (pool : Pool) (hk : k < poolPages) : poolPage pool k ≠ 0#64 := by
  intro hzero
  have h := congrArg BitVec.toNat hzero
  have hlow := pool.low
  rw [poolPage_toNat pool hk, show (0#64).toNat = 0 from rfl] at h
  omega

theorem poolPage_inj (hk : k < poolPages) (hm : m < poolPages) (h : poolPage pool k = poolPage pool m) : k = m := by
  have h := congrArg BitVec.toNat h
  rw [poolPage_toNat pool hk, poolPage_toNat pool hm] at h
  unfold pageSize at h
  omega

def childEntry (pool : Pool) (k : Nat) : Word := poolPage pool k ||| pagePresent ||| pageWritable

theorem childEntry_has (hk : k < poolPages) : has (childEntry pool k) pagePresent = true ∧
    has (childEntry pool k) pageHuge = false ∧ childEntry pool k &&& addressMask = poolPage pool k := by
  have hflags : childEntry pool k = poolPage pool k ||| 3#64 := by
    unfold childEntry
    rw [BitVec.or_assoc]
    rfl
  have hmask := poolPage_mask pool hk
  rw [hflags, has_or hmask (by decide), has_or hmask (by decide), or_mask hmask (by decide)]
  exact ⟨by decide, by decide, rfl⟩

structure Holds (pool : Pool) (b : Bootstrap) (n : Nat) (contents : Nat → Index → Word) : Prop where
  poolNext : b.poolNext = BitVec.ofNat 64 (n * pageSize)
  taken : b.taken = (List.range n).map (poolPage pool)
  memory : ∀ k < n, b.memory (poolPage pool k) = contents k
  fits : n ≤ poolPages

theorem Holds.congr {contents' : Nat → Index → Word} (h : Holds pool b n contents)
    (heq : ∀ k < n, contents k = contents' k) : Holds pool b n contents' :=
  ⟨h.poolNext, h.taken, fun k hk => (h.memory k hk).trans (heq k hk), h.fits⟩

theorem Holds.table (h : Holds pool b n contents) (hn : n < poolPages) : ∃ b',
    b.allocateBootstrapTable pool = (poolPage pool n, b') ∧
    Holds pool b' (n + 1) (Function.update contents n fun _ => 0#64) := by
  have haddress : pool.start + b.poolNext = poolPage pool n := by
    apply BitVec.eq_of_toNat_eq
    have hhigh := pool.high
    rw [BitVec.toNat_add, poolPage_toNat pool hn, h.poolNext, BitVec.toNat_ofNat]
    unfold poolPages pageSize at *
    omega
  have hroom : ¬(poolPage pool n < pool.start ∨ poolPage pool n > pool.stop ∨ pool.stop - poolPage pool n < 0x1000#64) := by
    have hpage := poolPage_toNat pool hn
    have hhigh := pool.high
    have hstop : pool.stop.toNat = pool.start.toNat + poolPages * pageSize := by
      unfold Pool.stop
      rw [BitVec.toNat_add, BitVec.toNat_ofNat]
      unfold poolPages pageSize at *
      omega
    rw [BitVec.lt_def, gt_iff_lt, BitVec.lt_def, BitVec.lt_def, BitVec.toNat_sub, hpage, hstop,
      show (0x1000#64).toNat = 4096 from rfl]
    unfold poolPages pageSize at *
    omega
  unfold allocateBootstrapTable
  dsimp only
  rw [haddress, if_neg hroom]
  refine ⟨_, rfl, ?_, ?_, fun k hk => ?_, hn⟩
  · dsimp only
    rw [h.poolNext, Nat.succ_mul, BitVec.ofNat_add]
    rfl
  · dsimp only
    rw [h.taken, List.range_succ, List.map_append]
    rfl
  · dsimp only
    by_cases hk' : k = n
    · rw [hk', Function.update_self, Function.update_self]
    · have hlt : k < n := by omega
      rw [Function.update_of_ne fun heq => hk' (poolPage_inj (by omega) hn heq), Function.update_of_ne hk', h.memory k hlt]

theorem Holds.write (h : Holds pool b n contents) (hk : k < n) (index : Index) (word : Word) :
    Holds pool { b with memory := store b.memory (poolPage pool k) index word } n (store contents k index word) := by
  refine ⟨h.poolNext, h.taken, fun j hj => ?_, h.fits⟩
  have hfits := h.fits
  unfold store
  dsimp only
  by_cases hj' : j = k
  · rw [hj', Function.update_self, Function.update_self, h.memory k hk]
  · rw [Function.update_of_ne fun heq => hj' (poolPage_inj (by omega) (by omega) heq), Function.update_of_ne hj',
      h.memory j hj]

theorem Holds.child_present (h : Holds pool b n contents) (hk : k < n) (hm : m < poolPages)
    (hentry : contents k index = childEntry pool m) :
    b.getOrCreateChild pool (poolPage pool k) index = (poolPage pool m, b) := by
  obtain ⟨hpresent, hhuge, hmask⟩ := @childEntry_has pool _ hm
  unfold getOrCreateChild
  rw [h.memory k hk, hentry]
  dsimp only
  rw [hpresent, hhuge, hmask]
  rfl

theorem Holds.child_absent (h : Holds pool b n contents) (hk : k < n) (hn : n < poolPages)
    (hentry : contents k index = 0#64) : ∃ b',
    b.getOrCreateChild pool (poolPage pool k) index = (poolPage pool n, b') ∧
    Holds pool b' (n + 1) (store (Function.update contents n fun _ => 0#64) k index (childEntry pool n)) := by
  obtain ⟨b', heq, hb'⟩ := h.table hn
  unfold getOrCreateChild
  rw [h.memory k hk, hentry, heq]
  dsimp only
  rw [show has 0#64 pagePresent = false by decide, if_neg Bool.false_ne_true, if_neg (poolPage_ne_zero pool hn)]
  exact ⟨_, rfl, hb'.write (Nat.lt_succ_of_lt hk) index _⟩

def hugeEntry (q : Nat) : Word :=
  BitVec.ofNat 64 (q * hugePageSize) &&& twoMiBAddressMask ||| pagePresent ||| pageWritable ||| pageHuge

theorem Holds.leaf {virtual physical : Word} (h : Holds pool b n contents) (hk : k < n)
    (hentry : contents k (pdIndex virtual) = 0#64) : ∃ b',
    b.writePde (poolPage pool k) virtual physical = (true, b') ∧
    Holds pool b' n (store contents k (pdIndex virtual)
      (physical &&& twoMiBAddressMask ||| pagePresent ||| pageWritable ||| pageHuge)) := by
  unfold writePde
  rw [h.memory k hk, hentry]
  exact ⟨_, rfl, h.write hk _ _⟩

end Pages

end Bootstrap

end Linux95.Memory
