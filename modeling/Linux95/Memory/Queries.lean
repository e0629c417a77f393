import Linux95.Memory.Spaces

/-! What `query_page` finds: the mapping of a user page, and for every other address what the kernel's
own tables say. -/

namespace Linux95.Memory
open Base LinkedTables Machine

variable {m : Machine} {roots kernel : Set Word} {reference : PhysicalMemory} {r : Word}

def leafInfo (va : Word) : Option Word → PageInfo
  | none => .absent
  | some entry => (Rights.all.restrict entry).info entry addressMask va 0xFFF#64

theorem node_none_append {memory : PhysicalMemory} {path : List Index} (h : node memory r path = none)
    (rest : List Index) : node memory r (path ++ rest) = none := by
  unfold node at h ⊢
  rw [follow_append, h]
  rfl

theorem Shaped.entry_cases (h : Shaped m roots kernel reference) (hr : r ∈ roots) {path : List Index}
    {i : Index} {p : Word} (hpath : UserPath (path ++ [i])) (hp : node m.memory r path = some p) :
    m.memory p i = 0#64 ∧ node m.memory r (path ++ [i]) = none ∨
      ∃ c, c &&& addressMask = c ∧ m.memory p i = tableEntry c ∧
        node m.memory r (path ++ [i]) = some c := by
  rcases h.inner r hr path i p hpath hp with hzero | ⟨c, hc, hentry⟩
  · exact Or.inl ⟨hzero, node_of_empty hp hzero⟩
  · have hmask := Allocator.managed_mask hc
    refine Or.inr ⟨c, hmask, hentry, ?_⟩
    unfold node at hp ⊢
    rw [follow_concat, hp]
    show link (m.memory p i) = some c
    rw [hentry, link_tableEntry hmask]

theorem Shaped.root_aligned (h : Shaped m roots kernel reference) (hr : r ∈ roots) :
    isPageAligned r = true :=
  Allocator.isPageAligned_of_mask (Allocator.managed_mask (h.taken r hr r (h.mem_held r)).1)

section Levels
variable (memory : PhysicalMemory) (va : Word)

def queryPt (rights : Rights) (pt : Word) : Bool × PageInfo :=
  let pte := memory pt (ptIndex va)
  if !has pte pagePresent then (true, .absent)
  else (true, (rights.restrict pte).info pte addressMask va 0xFFF#64)

def queryPd (rights : Rights) (pd : Word) : Bool × PageInfo :=
  let pde := memory pd (pdIndex va)
  if !has pde pagePresent then (true, .absent)
  else if has pde pageHuge then (true, (rights.restrict pde).info pde twoMiBAddressMask va 0x1FFFFF#64)
  else queryPt memory va (rights.restrict pde) (pde &&& addressMask)

def queryPdpt (rights : Rights) (pdpt : Word) : Bool × PageInfo :=
  let pdpte := memory pdpt (pdptIndex va)
  if !has pdpte pagePresent then (true, .absent)
  else if has pdpte pageHuge then
    (true, (rights.restrict pdpte).info pdpte oneGiBAddressMask va 0x3FFFFFFF#64)
  else queryPd memory va (rights.restrict pdpte) (pdpte &&& addressMask)

def queryPml4 (root : Word) : Bool × PageInfo :=
  let pml4e := memory root (pml4Index va)
  if !has pml4e pagePresent then (true, .absent)
  else queryPdpt memory va (Rights.all.restrict pml4e) (pml4e &&& addressMask)

theorem queryPage_levels (root : Word) : queryPage memory root va =
    if !isPageAligned root then (false, .absent) else queryPml4 memory va root := rfl

variable {memory va}

theorem queryPage_aligned {root : Word} (h : isPageAligned root = true) :
    queryPage memory root va = queryPml4 memory va root := by
  rw [queryPage_levels, h]
  rfl

theorem queryPt_zero {rights : Rights} {pt : Word} (h : memory pt (ptIndex va) = 0#64) :
    queryPt memory va rights pt = (true, .absent) := by
  unfold queryPt
  rw [h]
  rfl

theorem queryPd_zero {rights : Rights} {pd : Word} (h : memory pd (pdIndex va) = 0#64) :
    queryPd memory va rights pd = (true, .absent) := by
  unfold queryPd
  rw [h]
  rfl

theorem queryPdpt_zero {rights : Rights} {pdpt : Word} (h : memory pdpt (pdptIndex va) = 0#64) :
    queryPdpt memory va rights pdpt = (true, .absent) := by
  unfold queryPdpt
  rw [h]
  rfl

theorem queryPml4_zero {root : Word} (h : memory root (pml4Index va) = 0#64) :
    queryPml4 memory va root = (true, .absent) := by
  unfold queryPml4
  rw [h]
  rfl

theorem queryPd_table {rights : Rights} {pd pt : Word} (hpt : pt &&& addressMask = pt)
    (h : memory pd (pdIndex va) = tableEntry pt) :
    queryPd memory va rights pd = queryPt memory va rights pt := by
  obtain ⟨hpresent, hhuge, haddress⟩ := tableEntry_has hpt
  unfold queryPd
  dsimp only
  rw [h, hpresent, hhuge, haddress, tableEntry_restrict hpt]
  rfl

theorem queryPdpt_table {rights : Rights} {pdpt pd : Word} (hpd : pd &&& addressMask = pd)
    (h : memory pdpt (pdptIndex va) = tableEntry pd) :
    queryPdpt memory va rights pdpt = queryPd memory va rights pd := by
  obtain ⟨hpresent, hhuge, haddress⟩ := tableEntry_has hpd
  unfold queryPdpt
  dsimp only
  rw [h, hpresent, hhuge, haddress, tableEntry_restrict hpd]
  rfl

theorem queryPml4_table {root pdpt : Word} (hpdpt : pdpt &&& addressMask = pdpt)
    (h : memory root (pml4Index va) = tableEntry pdpt) :
    queryPml4 memory va root = queryPdpt memory va .all pdpt := by
  obtain ⟨hpresent, -, haddress⟩ := tableEntry_has hpdpt
  unfold queryPml4
  dsimp only
  rw [h, hpresent, haddress, tableEntry_restrict hpdpt]
  rfl

end Levels

/-- Under the user slots the permissions of the upper levels are all granted, so the entry of the
page decides. -/
theorem queryPage_user (h : Shaped m roots kernel reference) (hr : r ∈ roots) {va : Word}
    (hk : (pageKey va).InUserSlot) :
    queryPage m.memory r va = (true, leafInfo va (view m.memory r (pageKey va))) := by
  have hpath : UserPath ([pml4Index va, pdptIndex va] ++ [pdIndex va]) := PageKey.userPath hk
  have hpath₂ : UserPath ([pml4Index va] ++ [pdptIndex va]) := hpath.initial
  have hpath₁ : UserPath ([] ++ [pml4Index va]) := hpath₂.initial
  have hroot : node m.memory r [] = some r := rfl
  have hview : view m.memory r (pageKey va) =
      (node m.memory r ([pml4Index va, pdptIndex va] ++ [pdIndex va])).bind fun p =>
        if m.memory p (ptIndex va) = 0#64 then none else some (m.memory p (ptIndex va)) := rfl
  rw [queryPage_aligned (h.root_aligned hr), hview]
  rcases h.entry_cases hr hpath₁ hroot with ⟨hzero, hnode⟩ | ⟨pdpt, hmask, hentry, hnode⟩
  · have hnone : node m.memory r ([pml4Index va, pdptIndex va] ++ [pdIndex va]) = none :=
      node_none_append hnode [pdptIndex va, pdIndex va]
    rw [queryPml4_zero hzero, hnone]
    rfl
  rw [queryPml4_table hmask hentry]
  rcases h.entry_cases hr hpath₂ hnode with ⟨hzero, hnode⟩ | ⟨pd, hmask, hentry, hnode⟩
  · have hnone : node m.memory r ([pml4Index va, pdptIndex va] ++ [pdIndex va]) = none :=
      node_none_append hnode [pdIndex va]
    rw [queryPdpt_zero hzero, hnone]
    rfl
  rw [queryPdpt_table hmask hentry]
  rcases h.entry_cases hr hpath hnode with ⟨hzero, hnode⟩ | ⟨pt, hmask, hentry, hnode⟩
  · rw [queryPd_zero hzero, hnode]
    rfl
  rw [queryPd_table hmask hentry, hnode]
  rcases h.leaf r hr _ pt hpath rfl hnode (ptIndex va) with hzero | ⟨l, hl⟩
  · rw [queryPt_zero hzero]
    show _ = (true, leafInfo va (if m.memory pt (ptIndex va) = 0#64 then none else _))
    rw [if_pos hzero]
    rfl
  · unfold queryPt
    dsimp only
    rw [hl, l.entry_has.1]
    show _ = (true, leafInfo va (if m.memory pt (ptIndex va) = 0#64 then none else some _))
    rw [hl, if_neg l.entry_ne_zero]
    rfl

section Kernel

theorem has_not_user (e flag : Word) (h : ~~~pageUser &&& flag = flag) :
    has (e &&& ~~~pageUser) flag = has e flag := by
  unfold has
  rw [BitVec.and_assoc, h]

def PageInfo.withoutUser (info : PageInfo) : PageInfo := { info with user := false }

def Rights.withoutUser (rights : Rights) : Rights := { rights with user := false }

theorem Rights.restrict_withoutUser (rights : Rights) (entry : Word) :
    rights.withoutUser.restrict entry = (rights.restrict entry).withoutUser := by
  unfold restrict withoutUser
  rw [Bool.false_and]

section Levels
variable {memory : PhysicalMemory} {va : Word}

theorem queryPt_withoutUser (rights : Rights) (pt : Word) : queryPt memory va rights.withoutUser pt =
    (true, (queryPt memory va rights pt).2.withoutUser) := by
  unfold queryPt
  dsimp only
  rw [Rights.restrict_withoutUser]
  split <;> rfl

theorem queryPd_withoutUser (rights : Rights) (pd : Word) : queryPd memory va rights.withoutUser pd =
    (true, (queryPd memory va rights pd).2.withoutUser) := by
  unfold queryPd
  dsimp only
  rw [Rights.restrict_withoutUser, queryPt_withoutUser]
  split
  · rfl
  · split <;> rfl

theorem queryPdpt_withoutUser (rights : Rights) (pdpt : Word) :
    queryPdpt memory va rights.withoutUser pdpt =
      (true, (queryPdpt memory va rights pdpt).2.withoutUser) := by
  unfold queryPdpt
  dsimp only
  rw [Rights.restrict_withoutUser, queryPd_withoutUser]
  split
  · rfl
  · split <;> rfl

end Levels

/-- Taking the user bit from the entry of the root takes user access from everything below it. -/
theorem queryPage_shared {memory : PhysicalMemory} {k : Word} {va : Word}
    (hr : isPageAligned r = true) (hk : isPageAligned k = true)
    (h : memory r (pml4Index va) = memory k (pml4Index va) &&& ~~~pageUser) :
    queryPage memory r va = (true, (queryPage memory k va).2.withoutUser) := by
  have hpresent := has_not_user (memory k (pml4Index va)) pagePresent (by decide)
  have hwritable := has_not_user (memory k (pml4Index va)) pageWritable (by decide)
  have hexecute := has_not_user (memory k (pml4Index va)) pageNoExecute (by decide)
  have huser : has (memory k (pml4Index va) &&& ~~~pageUser) pageUser = false := by
    unfold has
    rw [BitVec.and_assoc, show ~~~pageUser &&& pageUser = 0#64 by decide, BitVec.and_zero]
    rfl
  have haddress : memory k (pml4Index va) &&& ~~~pageUser &&& addressMask =
      memory k (pml4Index va) &&& addressMask := by
    rw [BitVec.and_assoc, show ~~~pageUser &&& addressMask = addressMask by decide]
  have hrights : Rights.all.restrict (memory k (pml4Index va) &&& ~~~pageUser) =
      (Rights.all.restrict (memory k (pml4Index va))).withoutUser := by
    unfold Rights.restrict Rights.withoutUser
    rw [huser, hwritable, hexecute, Bool.and_false]
  rw [queryPage_aligned hr, queryPage_aligned hk]
  unfold queryPml4
  dsimp only
  rw [h, hpresent, haddress, hrights, queryPdpt_withoutUser]
  split <;> rfl

theorem queryPage_no_user {memory : PhysicalMemory} {va : Word} (hr : isPageAligned r = true)
    (h : has (memory r (pml4Index va)) pageUser = false) : (queryPage memory r va).2.user = false := by
  have hrights : Rights.all.restrict (memory r (pml4Index va)) =
      (Rights.all.restrict (memory r (pml4Index va))).withoutUser := by
    unfold Rights.restrict Rights.withoutUser
    rw [h, Bool.and_false]
  rw [queryPage_aligned hr]
  unfold queryPml4
  dsimp only
  rw [hrights, queryPdpt_withoutUser]
  split <;> rfl

section Walks
variable (memory : PhysicalMemory) (va : Word)

def walkPd (pd : Word) : List Word :=
  let pde := memory pd (pdIndex va)
  if !has pde pagePresent || has pde pageHuge then [pd] else [pd, pde &&& addressMask]

def walkPdpt (pdpt : Word) : List Word :=
  let pdpte := memory pdpt (pdptIndex va)
  if !has pdpte pagePresent || has pdpte pageHuge then [pdpt]
  else pdpt :: walkPd memory va (pdpte &&& addressMask)

def walk (root : Word) : List Word :=
  let pml4e := memory root (pml4Index va)
  if !has pml4e pagePresent then [root] else root :: walkPdpt memory va (pml4e &&& addressMask)

end Walks

theorem walkPd_head (memory : PhysicalMemory) (va pd : Word) : pd ∈ walkPd memory va pd := by
  unfold walkPd
  dsimp only
  split <;> exact List.mem_cons_self

theorem walkPdpt_head (memory : PhysicalMemory) (va pdpt : Word) :
    pdpt ∈ walkPdpt memory va pdpt := by
  unfold walkPdpt
  dsimp only
  split <;> exact List.mem_cons_self

theorem walk_head (memory : PhysicalMemory) (va root : Word) : root ∈ walk memory va root := by
  unfold walk
  dsimp only
  split <;> exact List.mem_cons_self

section Congr
variable {memory memory' : PhysicalMemory} {va : Word}

theorem queryPd_congr {rights : Rights} {pd : Word} (h : ∀ p ∈ walkPd memory va pd, memory' p = memory p) :
    queryPd memory' va rights pd = queryPd memory va rights pd := by
  have hpd : memory' pd = memory pd := h pd (walkPd_head memory va pd)
  unfold walkPd at h
  unfold queryPd
  dsimp only at h ⊢
  rw [hpd]
  generalize memory pd (pdIndex va) = pde at h ⊢
  split
  · rfl
  · split
    · rfl
    · rename_i hpresent hhuge
      have hpt := h (pde &&& addressMask)
      rw [Bool.not_eq_true] at hpresent hhuge
      rw [hpresent, hhuge] at hpt
      unfold queryPt
      rw [hpt (by simp)]

theorem queryPdpt_congr {rights : Rights} {pdpt : Word}
    (h : ∀ p ∈ walkPdpt memory va pdpt, memory' p = memory p) :
    queryPdpt memory' va rights pdpt = queryPdpt memory va rights pdpt := by
  have hpdpt : memory' pdpt = memory pdpt := h pdpt (walkPdpt_head memory va pdpt)
  unfold walkPdpt at h
  unfold queryPdpt
  dsimp only at h ⊢
  rw [hpdpt]
  generalize memory pdpt (pdptIndex va) = pdpte at h ⊢
  split
  · rfl
  · split
    · rfl
    · rename_i hpresent hhuge
      rw [Bool.not_eq_true] at hpresent hhuge
      rw [hpresent, hhuge] at h
      rw [queryPd_congr fun p hp => h p (List.mem_cons_of_mem pdpt hp)]

theorem queryPage_congr {root : Word} (h : ∀ p ∈ walk memory va root, memory' p = memory p) :
    queryPage memory' root va = queryPage memory root va := by
  -- two memories that agree on the pages of the walk give the same answer
  have hroot : memory' root = memory root := h root (walk_head memory va root)
  unfold walk at h
  rw [queryPage_levels, queryPage_levels]
  unfold queryPml4
  dsimp only at h ⊢
  rw [hroot]
  generalize memory root (pml4Index va) = pml4e at h ⊢
  cases hpresent : has pml4e pagePresent with
  | false => rfl
  | true =>
    rw [hpresent, Bool.not_true, if_neg Bool.false_ne_true] at h
    rw [queryPdpt_congr fun p hp => h p (List.mem_cons_of_mem root hp)]

end Congr

def kernelPages (memory : PhysicalMemory) (root : Word) : Set Word :=
  { p | ∃ va, p ∈ walk memory va root }

theorem kernelPages_root (memory : PhysicalMemory) (root : Word) : root ∈ kernelPages memory root :=
  ⟨0#64, walk_head memory 0#64 root⟩

theorem rootPhysical_aligned (m : Machine) : isPageAligned m.rootPhysical = true := by
  have hmask : m.rootPhysical &&& addressMask = m.rootPhysical := by
    unfold Machine.rootPhysical
    rw [BitVec.and_assoc, BitVec.and_self]
  exact Allocator.isPageAligned_of_mask hmask

theorem Shaped.queryPage_kernel (h : Shaped m roots (kernelPages reference m.rootPhysical) reference)
    (va : Word) : queryPage m.memory m.rootPhysical va = queryPage reference m.rootPhysical va :=
  queryPage_congr fun p hp => (h.kept p ⟨va, hp⟩).1

end Kernel

end Linux95.Memory
