import Linux95.Base.LinkedTables

/-! The entries of a tree of tables, by the path of their table. A tree ends at a fixed depth: the entries of its
last tables link to nothing. -/

namespace Linux95.Base.LinkedTables

variable {A I W : Type}

/-- How entries are read: an entry that links to a table is present. -/
structure Format (A W : Type) where
  link : W → Option A
  present : W → Bool
  present_of_link : ∀ {w c}, link w = some c → present w = true

theorem le_of_concat {path : List I} {i : I} {depth : Nat} (h : (path ++ [i]).length ≤ depth) :
    path.length ≤ depth := by
  rw [List.length_append, List.length_singleton] at h
  exact Nat.le_of_succ_le h

def upTo (r : A) (depth : Nat) : Domain A I where
  belongs r' path := r' = r ∧ path.length ≤ depth
  initial h := ⟨h.1, le_of_concat h.2⟩

abbrev Entries (I W : Type) := List I → I → Option W

namespace Format

variable (F : Format A W)

theorem link_of_absent {w : W} (h : F.present w = false) : F.link w = none := by
  cases hlink : F.link w with
  | none => rfl
  | some c =>
    rw [F.present_of_link hlink] at h
    cases h

def entries (depth : Nat) (memory : A → I → W) (r : A) : Entries I W := fun path i =>
  if path.length ≤ depth then (follow F.link memory r path).bind fun b => (some (memory b i)).filter F.present
  else none

end Format

variable {F : Format A W} {depth : Nat} {memory : A → I → W} {r b : A} {path : List I} {i : I}

theorem entries_of_follow (hpath : path.length ≤ depth) (hb : follow F.link memory r path = some b) (i : I) :
    F.entries depth memory r path i = (some (memory b i)).filter F.present := by
  unfold Format.entries
  rw [if_pos hpath, hb]
  rfl

theorem entries_deep (hpath : depth < path.length) : F.entries depth memory r path i = none := by
  unfold Format.entries
  exact if_neg (Nat.not_le.mpr hpath)

theorem follow_concat_entries (hpath : path.length ≤ depth) :
    follow F.link memory r (path ++ [i]) = (F.entries depth memory r path i).bind F.link := by
  unfold Format.entries
  rw [follow_concat, if_pos hpath]
  cases follow F.link memory r path with
  | none => rfl
  | some b =>
    show F.link (memory b i) = ((some (memory b i)).filter F.present).bind F.link
    rw [Option.filter_some]
    cases hpresent : F.present (memory b i) with
    | true => rfl
    | false => exact F.link_of_absent hpresent

theorem entries_of_follow_none (hnone : follow F.link memory r path = none) (i : I) :
    F.entries depth memory r path i = none := by
  unfold Format.entries
  rw [hnone]
  exact ite_self none

theorem entry_inj (hunshared : Unshared F.link memory (upTo r depth)) (hpath : path.length ≤ depth)
    (hb : follow F.link memory r path = some b) {path' : List I} {b' : A} {j : I} (hpath' : path'.length ≤ depth)
    (hfound : follow F.link memory r path' = some b') (hat : ¬(path' = path ∧ j = i)) : b' = b → j ≠ i := by
  have hbelongs : (upTo r depth).belongs r path := ⟨rfl, hpath⟩
  have hbelongs' : (upTo r depth).belongs r path' := ⟨rfl, hpath'⟩
  rintro rfl rfl
  exact hat ⟨(hunshared hbelongs' hbelongs hfound hb).2, rfl⟩

theorem links_nothing (hb : follow F.link memory r path = some b) (hinner : path.length < depth)
    (hempty : ∀ j, F.entries depth memory r (path ++ [i]) j = none) :
    ∀ c, F.link (memory b i) = some c → ∀ j, F.link (memory c j) = none := by
  have hlength : (path ++ [i]).length ≤ depth := by
    rw [List.length_append]
    exact hinner
  intro c hc j
  have hfollow : follow F.link memory r (path ++ [i]) = some c := by
    rw [follow_concat, hb]
    exact hc
  have hnone := hempty j
  rw [entries_of_follow hlength hfollow, Option.filter_some] at hnone
  cases hpresent : F.present (memory c j) with
  | false => exact F.link_of_absent hpresent
  | true =>
    rw [if_pos hpresent] at hnone
    cases hnone

section Updates
variable [DecidableEq A] [DecidableEq I]

theorem follow_detach {link : W → Option A} {P : Domain A I} (hunshared : Unshared link memory P) {r₀ : A}
    {path₀ : List I} (hpath₀ : P.belongs r₀ (path₀ ++ [i])) (hb : follow link memory r₀ path₀ = some b)
    (hempty : ∀ c, link (memory b i) = some c → ∀ j, link (memory c j) = none) {w : W} (hlink : link w = none)
    (hpath : P.belongs r path) :
    follow link (store memory b i w) r path =
      if r = r₀ ∧ path = path₀ ++ [i] then none else follow link memory r path := by
  induction path using List.reverseRecOn with
  | nil =>
    rw [if_neg]
    · rfl
    · rintro ⟨-, hnil⟩
      simp at hnil
  | append_singleton path j ih =>
    have hpath' := P.initial hpath
    rw [follow_concat, ih hpath', follow_concat]
    by_cases hcut : r = r₀ ∧ path = path₀ ++ [i]
    · -- The table that was cut off linked nothing.
      obtain ⟨rfl, rfl⟩ := hcut
      have hlonger : ¬(r = r ∧ path₀ ++ [i] ++ [j] = path₀ ++ [i]) := by
        rintro ⟨-, h⟩
        simpa using congrArg List.length h
      have hbelow : follow link memory r (path₀ ++ [i]) = link (memory b i) := by
        rw [follow_concat, hb]
        rfl
      rw [if_pos ⟨rfl, rfl⟩, if_neg hlonger, hbelow]
      cases hc : link (memory b i) with
      | none => rfl
      | some c => exact (hempty c hc j).symm
    · rw [if_neg hcut]
      cases ha : follow link memory r path with
      | none =>
        rw [Option.bind_none, Option.bind_none]
        exact (ite_self none).symm
      | some a =>
        show link (store memory b i w a j) = _
        by_cases hat : r = r₀ ∧ path ++ [j] = path₀ ++ [i]
        · obtain ⟨rfl, heq⟩ := hat
          obtain ⟨rfl, hji⟩ := List.append_inj' heq rfl
          obtain rfl : j = i := by simpa using hji
          obtain rfl : b = a := Option.some.inj (hb.symm.trans ha)
          rw [if_pos ⟨rfl, rfl⟩, store_self, hlink]
        · rw [if_neg hat, store_of_ne]
          · rfl
          · rintro rfl rfl
            obtain ⟨rfl, rfl⟩ := hunshared hpath' (P.initial hpath₀) ha hb
            exact hat ⟨rfl, rfl⟩

theorem Unshared.detach {link : W → Option A} {P : Domain A I} (hunshared : Unshared link memory P) {r₀ : A}
    {path₀ : List I} (hpath₀ : P.belongs r₀ (path₀ ++ [i])) (hb : follow link memory r₀ path₀ = some b)
    (hempty : ∀ c, link (memory b i) = some c → ∀ j, link (memory c j) = none) {w : W} (hlink : link w = none) :
    Unshared link (store memory b i w) P := by
  intro r path r' path' d hpath hpath' hd hd'
  rw [follow_detach hunshared hpath₀ hb hempty hlink hpath] at hd
  rw [follow_detach hunshared hpath₀ hb hempty hlink hpath'] at hd'
  split at hd
  · cases hd
  split at hd'
  · cases hd'
  exact hunshared hpath hpath' hd hd'

omit [DecidableEq A] in
theorem entries_store {memory' : A → I → W} {w : W} (hpath : path.length ≤ depth)
    (hb' : follow F.link memory' r path = some b) (hw : memory' b i = w)
    (hbelow : ∀ j, F.entries depth memory r (path ++ [i]) j = none)
    (hbelow' : ∀ j, F.entries depth memory' r (path ++ [i]) j = none)
    (hfollow : ∀ path', path'.length ≤ depth → path' ≠ path ++ [i] →
      follow F.link memory' r path' = follow F.link memory r path')
    (hkept : ∀ path' b' j, path'.length ≤ depth → path' ≠ path ++ [i] → ¬(path' = path ∧ j = i) →
      follow F.link memory r path' = some b' → memory' b' j = memory b' j) :
    F.entries depth memory' r = store (F.entries depth memory r) path i ((some w).filter F.present) := by
  funext path' j
  by_cases hat : path' = path ∧ j = i
  · obtain ⟨rfl, rfl⟩ := hat
    rw [entries_of_follow hpath hb', store_self, hw]
  rw [store_of_ne fun hp hj => hat ⟨hp, hj⟩]
  by_cases hdeep : depth < path'.length
  · rw [entries_deep hdeep, entries_deep hdeep]
  have hpath' := Nat.not_lt.mp hdeep
  by_cases hnext : path' = path ++ [i]
  · rw [hnext, hbelow, hbelow']
  unfold Format.entries
  rw [if_pos hpath', if_pos hpath', hfollow path' hpath' hnext]
  cases hfound : follow F.link memory r path' with
  | none => rfl
  | some b' =>
    show (some (memory' b' j)).filter F.present = (some (memory b' j)).filter F.present
    rw [hkept path' b' j hpath' hnext hat hfound]

section Entries
variable (hunshared : Unshared F.link memory (upTo r depth)) (hpath : path.length ≤ depth)
  (hb : follow F.link memory r path = some b)
include hunshared hpath hb

theorem entries_store_leaf (hlast : path.length = depth) (w : W) :
    F.entries depth (store memory b i w) r =
      store (F.entries depth memory r) path i ((some w).filter F.present) := by
  have hbelongs : (upTo r depth).belongs r path := ⟨rfl, hpath⟩
  have hdeep : depth < (path ++ [i]).length := by
    rw [List.length_append, hlast]
    exact Nat.lt_succ_self depth
  have hleaf : ¬(upTo r depth).belongs r (path ++ [i]) := fun h => absurd hdeep (Nat.not_lt.mpr h.2)
  have hfollow : ∀ path', path'.length ≤ depth →
      follow F.link (store memory b i w) r path' = follow F.link memory r path' := by
    intro path' hpath'
    have hbelongs' : (upTo r depth).belongs r path' := ⟨rfl, hpath'⟩
    exact follow_store_leaf hunshared hbelongs hb hleaf w hbelongs'
  refine entries_store hpath ((hfollow path hpath).trans hb) (store_self _ _ _ _) ?_ ?_ ?_ ?_
  · exact fun j => entries_deep hdeep
  · exact fun j => entries_deep hdeep
  · exact fun path' hpath' _ => hfollow path' hpath'
  · exact fun path' b' j hpath' _ hat hfound => store_of_ne (entry_inj hunshared hpath hb hpath' hfound hat)

theorem entries_detach (hinner : path.length < depth) (hempty : ∀ j, F.entries depth memory r (path ++ [i]) j = none)
    {w : W} (habsent : F.present w = false) :
    F.entries depth (store memory b i w) r = store (F.entries depth memory r) path i none := by
  have hlength : (path ++ [i]).length ≤ depth := by
    rw [List.length_append]
    exact hinner
  have hbelow : (upTo r depth).belongs r (path ++ [i]) := ⟨rfl, hlength⟩
  have hlinks := links_nothing hb hinner hempty
  have hfollow : ∀ path', path'.length ≤ depth → follow F.link (store memory b i w) r path' =
      if r = r ∧ path' = path ++ [i] then none else follow F.link memory r path' := by
    intro path' hpath'
    have hbelongs' : (upTo r depth).belongs r path' := ⟨rfl, hpath'⟩
    exact follow_detach hunshared hbelow hb hlinks (F.link_of_absent habsent) hbelongs'
  have hother : ∀ path', path'.length ≤ depth → path' ≠ path ++ [i] →
      follow F.link (store memory b i w) r path' = follow F.link memory r path' := by
    intro path' hpath' hne
    rw [hfollow path' hpath', if_neg fun h => hne h.2]
  have hcut : follow F.link (store memory b i w) r (path ++ [i]) = none := by
    rw [hfollow _ hlength, if_pos ⟨rfl, rfl⟩]
  have hshorter : path ≠ path ++ [i] := by
    intro h
    simpa using congrArg List.length h
  have hfiltered : (some w).filter F.present = none := by
    rw [Option.filter_some, habsent]
    rfl
  rw [← hfiltered]
  refine entries_store hpath ((hother path hpath hshorter).trans hb) (store_self _ _ _ _) hempty ?_ hother ?_
  · exact fun j => entries_of_follow_none hcut j
  · exact fun path' b' j hpath' _ hat hfound => store_of_ne (entry_inj hunshared hpath hb hpath' hfound hat)

theorem entries_attach (hinner : path.length < depth) (hempty : F.entries depth memory r path i = none) {c : A}
    (hfresh : Fresh F.link memory (upTo r depth) c) {w : W} (hlink : F.link w = some c) {blank : I → W}
    (hblank : ∀ j, F.present (blank j) = false) :
    F.entries depth (store (Function.update memory c blank) b i w) r =
      store (F.entries depth memory r) path i (some w) := by
  have hlength : (path ++ [i]).length ≤ depth := by
    rw [List.length_append]
    exact hinner
  have hbelongs : (upTo r depth).belongs r path := ⟨rfl, hpath⟩
  have hbelow : (upTo r depth).belongs r (path ++ [i]) := ⟨rfl, hlength⟩
  have hbefore : follow F.link memory r (path ++ [i]) = none := by
    rw [follow_concat_entries hpath, hempty]
    rfl
  have hnone : F.link (memory b i) = none := by
    rw [follow_concat, hb] at hbefore
    exact hbefore
  have hbc : b ≠ c := by
    rintro rfl
    exact hfresh r path hbelongs hb
  have hfollow : ∀ path', path'.length ≤ depth → follow F.link (store (Function.update memory c blank) b i w) r path' =
      if r = r ∧ path' = path ++ [i] then some c else follow F.link memory r path' := by
    intro path' hpath'
    have hbelongs' : (upTo r depth).belongs r path' := ⟨rfl, hpath'⟩
    exact follow_attach hunshared hbelow hb hnone hfresh hlink (fun j => F.link_of_absent (hblank j)) hbelongs'
  have hother : ∀ path', path'.length ≤ depth → path' ≠ path ++ [i] →
      follow F.link (store (Function.update memory c blank) b i w) r path' = follow F.link memory r path' := by
    intro path' hpath' hne
    rw [hfollow path' hpath', if_neg fun h => hne h.2]
  have hnew : follow F.link (store (Function.update memory c blank) b i w) r (path ++ [i]) = some c := by
    rw [hfollow _ hlength, if_pos ⟨rfl, rfl⟩]
  have hshorter : path ≠ path ++ [i] := by
    intro h
    simpa using congrArg List.length h
  have hfiltered : (some w).filter F.present = some w := by
    rw [Option.filter_some, F.present_of_link hlink]
    rfl
  rw [← hfiltered]
  refine entries_store hpath ((hother path hpath hshorter).trans hb) (store_self _ _ _ _) ?_ ?_ hother ?_
  · exact fun j => entries_of_follow_none hbefore j
  · intro j
    rw [entries_of_follow hlength hnew, store_of_ne fun h => absurd h.symm hbc, Function.update_self,
      Option.filter_some, hblank]
    rfl
  · intro path' b' j hpath' _ hat hfound
    have hbc' : b' ≠ c := by
      rintro rfl
      exact hfresh r path' ⟨rfl, hpath'⟩ hfound
    rw [store_of_ne (entry_inj hunshared hpath hb hpath' hfound hat), Function.update_of_ne hbc']

end Entries

end Updates

section Overlays
variable {base e : Entries I W}

/-- What was built over a tree: its entries stay, and above the last level only links are added. -/
structure Overlay (F : Format A W) (depth : Nat) (base e : Entries I W) : Prop where
  above : ∀ path i w, base path i = some w → e path i = some w
  links : ∀ path i w, path.length < depth → base path i = none → e path i = some w → ∃ c, F.link w = some c

def Tight (F : Format A W) (depth : Nat) (base e : Entries I W) : Prop :=
  ∀ path i w c, path.length < depth → base path i = none → e path i = some w → F.link w = some c →
    ∃ j w', e (path ++ [i]) j = some w'

theorem Overlay.refl (F : Format A W) (depth : Nat) (base : Entries I W) : Overlay F depth base base := by
  refine ⟨fun _ _ _ h => h, fun path i w _ hnone h => ?_⟩
  rw [hnone] at h
  cases h

theorem Overlay.base_none (h : Overlay F depth base e) (hnone : e path i = none) : base path i = none := by
  cases hbase : base path i with
  | none => rfl
  | some w =>
    rw [h.above path i w hbase] at hnone
    cases hnone

theorem Overlay.trans {e' : Entries I W} (h : Overlay F depth base e) (h' : Overlay F depth e e') :
    Overlay F depth base e' := by
  refine ⟨fun path i w hw => h'.above path i w (h.above path i w hw), ?_⟩
  intro path i w hpath hnone hw
  cases he : e path i with
  | none => exact h'.links path i w hpath he hw
  | some w' =>
    obtain rfl := Option.some.inj ((h'.above path i w' he).symm.trans hw)
    exact h.links path i w' hpath hnone he

theorem Overlay.store [DecidableEq I] (h : Overlay F depth base e) (hnone : base path i = none) {x : Option W}
    (hx : path.length < depth → ∀ w, x = some w → ∃ c, F.link w = some c) :
    Overlay F depth base (LinkedTables.store e path i x) := by
  constructor
  · intro path' j w hw
    rw [store_of_ne]
    · exact h.above path' j w hw
    · rintro rfl rfl
      rw [hnone] at hw
      cases hw
  · intro path' j w hpath hbase hw
    by_cases hat : path' = path ∧ j = i
    · obtain ⟨rfl, rfl⟩ := hat
      rw [store_self] at hw
      exact hx hpath w hw
    · rw [store_of_ne fun hp hj => hat ⟨hp, hj⟩] at hw
      exact h.links path' j w hpath hbase hw

theorem Overlay.eq_base (h : Overlay F depth base e) (htight : Tight F depth base e)
    (hbase : ∀ path i, base path i = none → ∀ j, base (path ++ [i]) j = none)
    (hlast : ∀ path i, depth ≤ path.length → base path i = none → e path i = none) : e = base := by
  -- The induction goes up from the last level: a table that was added has an entry one level down.
  have hnone : ∀ n path i, depth ≤ path.length + n → base path i = none → e path i = none := by
    intro n
    induction n with
    | zero => exact hlast
    | succ n ih =>
      intro path i hpath hnone
      by_cases hdeep : depth ≤ path.length
      · exact hlast path i hdeep hnone
      cases hw : e path i with
      | none => rfl
      | some w =>
        obtain ⟨c, hc⟩ := h.links path i w (Nat.not_le.mp hdeep) hnone hw
        obtain ⟨j, w', hw'⟩ := htight path i w c (Nat.not_le.mp hdeep) hnone hw hc
        have hlength : depth ≤ (path ++ [i]).length + n := by
          rw [List.length_append, List.length_singleton]
          omega
        rw [ih _ j hlength (hbase path i hnone j)] at hw'
        cases hw'
  funext path i
  cases hw : base path i with
  | none => exact hnone depth path i (Nat.le_add_left _ _) hw
  | some w => exact h.above path i w hw

end Overlays

end Linux95.Base.LinkedTables
