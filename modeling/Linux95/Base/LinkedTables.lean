import Mathlib.Data.List.Induction
import Mathlib.Logic.Function.Basic
import Mathlib.Tactic.Common

/-! Trees of tables in a memory. A table at an address has entries, and an entry may link to another
table. `P r π` says which paths from which roots belong to the trees under consideration; a path
belongs with all its prefixes. -/

namespace Linux95.Base.LinkedTables

variable {A I W : Type}

def follow (link : W → Option A) (memory : A → I → W) : A → List I → Option A
  | a, [] => some a
  | a, i :: path => (link (memory a i)).bind fun b => follow link memory b path

section Follow
variable {link : W → Option A} {memory memory' : A → I → W}

theorem follow_append (a : A) (path path' : List I) :
    follow link memory a (path ++ path') =
      (follow link memory a path).bind fun b => follow link memory b path' := by
  induction path generalizing a with
  | nil => rfl
  | cons i path ih =>
    rw [List.cons_append, follow, follow, Option.bind_assoc]
    congr 1
    funext b
    exact ih b

theorem follow_concat (a : A) (path : List I) (i : I) :
    follow link memory a (path ++ [i]) =
      (follow link memory a path).bind fun b => link (memory b i) := by
  rw [follow_append]
  congr 1
  funext b
  rw [follow]
  cases link (memory b i) <;> rfl

theorem follow_congr {a : A} {path : List I}
    (h : ∀ start i, start ++ [i] <+: path → ∀ b, follow link memory a start = some b →
      link (memory' b i) = link (memory b i)) :
    follow link memory' a path = follow link memory a path := by
  induction path using List.reverseRecOn with
  | nil => rfl
  | append_singleton path i ih =>
    have ih := ih fun start j hstart => h start j (hstart.trans (List.prefix_append path [i]))
    rw [follow_concat, follow_concat, ih]
    cases hb : follow link memory a path with
    | none => rfl
    | some b => exact h path i List.prefix_rfl b hb

end Follow

structure Domain (A I : Type) where
  belongs : A → List I → Prop
  initial : ∀ {r path i}, belongs r (path ++ [i]) → belongs r path

namespace Domain

theorem belongs_prefix (P : Domain A I) {r : A} {path start : List I} (h : P.belongs r path)
    (hstart : start <+: path) : P.belongs r start := by
  induction path using List.reverseRecOn with
  | nil =>
    rw [List.prefix_nil.mp hstart]
    exact h
  | append_singleton path i ih =>
    rcases List.prefix_concat_iff.mp hstart with rfl | hshorter
    · exact h
    · exact ih (P.initial h) hshorter

end Domain

def Unshared (link : W → Option A) (memory : A → I → W) (P : Domain A I) : Prop :=
  ∀ {r path r' path' b}, P.belongs r path → P.belongs r' path' →
    follow link memory r path = some b → follow link memory r' path' = some b →
    r = r' ∧ path = path'

def Fresh (link : W → Option A) (memory : A → I → W) (P : Domain A I) (c : A) : Prop :=
  ∀ r path, P.belongs r path → follow link memory r path ≠ some c

theorem Unshared.congr {link : W → Option A} {memory memory' : A → I → W} {P : Domain A I}
    (h : Unshared link memory P)
    (heq : ∀ r path, P.belongs r path → follow link memory' r path = follow link memory r path) :
    Unshared link memory' P := by
  intro r path r' path' b hpath hpath' hb hb'
  rw [heq r path hpath] at hb
  rw [heq r' path' hpath'] at hb'
  exact h hpath hpath' hb hb'

section Updates
variable [DecidableEq A] [DecidableEq I]

def store (memory : A → I → W) (a : A) (i : I) (w : W) : A → I → W :=
  Function.update memory a (Function.update (memory a) i w)

theorem store_self (memory : A → I → W) (a : A) (i : I) (w : W) : store memory a i w a i = w := by
  rw [store, Function.update_self, Function.update_self]

theorem store_of_ne {memory : A → I → W} {a b : A} {i j : I} {w : W} (h : b = a → j ≠ i) :
    store memory a i w b j = memory b j := by
  unfold store
  by_cases hb : b = a
  · subst hb
    rw [Function.update_self, Function.update_of_ne (h rfl)]
  · rw [Function.update_of_ne hb]

variable {link : W → Option A} {memory : A → I → W} {P : Domain A I}

omit [DecidableEq I] in
theorem follow_update_fresh {c : A} (hfresh : Fresh link memory P c) (page : I → W) {r : A}
    {path : List I} (hpath : P.belongs r path) :
    follow link (Function.update memory c page) r path = follow link memory r path := by
  apply follow_congr
  intro start i hstart b hb
  have hne : b ≠ c := by
    rintro rfl
    exact hfresh r start (P.initial (P.belongs_prefix hpath hstart)) hb
  rw [Function.update_of_ne hne]

theorem follow_store_leaf (hunshared : Unshared link memory P) {r₀ : A} {path₀ : List I} {b : A}
    (hpath₀ : P.belongs r₀ path₀) (hb : follow link memory r₀ path₀ = some b) {i : I}
    (hleaf : ¬ P.belongs r₀ (path₀ ++ [i])) (w : W) {r : A} {path : List I}
    (hpath : P.belongs r path) :
    follow link (store memory b i w) r path = follow link memory r path := by
  -- writing an entry whose path does not belong: the trees end at this table
  apply follow_congr
  intro start j hstart b' hb'
  have hstart := P.belongs_prefix hpath hstart
  congr 1
  apply store_of_ne
  rintro rfl rfl
  obtain ⟨rfl, rfl⟩ := hunshared (P.initial hstart) hpath₀ hb' hb
  exact hleaf hstart

theorem follow_attach (hunshared : Unshared link memory P) {r₀ : A} {path₀ : List I} {b : A} {i : I}
    (hpath₀ : P.belongs r₀ (path₀ ++ [i])) (hb : follow link memory r₀ path₀ = some b)
    (hempty : link (memory b i) = none) {c : A} (hfresh : Fresh link memory P c) {w : W}
    (hlink : link w = some c) {blank : I → W} (hblank : ∀ j, link (blank j) = none) {r : A}
    {path : List I} (hpath : P.belongs r path) :
    follow link (store (Function.update memory c blank) b i w) r path =
      if r = r₀ ∧ path = path₀ ++ [i] then some c else follow link memory r path := by
  have hbc : b ≠ c := by
    rintro rfl
    exact hfresh r₀ path₀ (P.initial hpath₀) hb
  have hentry : ∀ a j, a ≠ c → (a = b → j ≠ i) →
      store (Function.update memory c blank) b i w a j = memory a j := by
    intro a j hac hj
    rw [store_of_ne hj, Function.update_of_ne hac]
  induction path using List.reverseRecOn with
  | nil =>
    rw [if_neg]
    · rfl
    · rintro ⟨-, hnil⟩
      simp at hnil
  | append_singleton path j ih =>
    have hpath' := P.initial hpath
    rw [follow_concat, ih hpath', follow_concat]
    by_cases hnew : r = r₀ ∧ path = path₀ ++ [i]
    · -- Below the new table there is nothing, and there was nothing before.
      obtain ⟨rfl, rfl⟩ := hnew
      have hold : follow link memory r (path₀ ++ [i]) = none := by
        rw [follow_concat, hb]
        exact hempty
      have hlonger : ¬ (r = r ∧ path₀ ++ [i] ++ [j] = path₀ ++ [i]) := by
        rintro ⟨-, h⟩
        simpa using congrArg List.length h
      rw [if_pos ⟨rfl, rfl⟩, if_neg hlonger, hold]
      show link (store (Function.update memory c blank) b i w c j) = none
      rw [store_of_ne fun h => absurd h.symm hbc, Function.update_self]
      exact hblank j
    · rw [if_neg hnew]
      cases ha : follow link memory r path with
      | none =>
        rw [if_neg]
        · rfl
        · rintro ⟨rfl, heq⟩
          obtain ⟨rfl, -⟩ := List.append_inj' heq rfl
          rw [hb] at ha
          cases ha
      | some a =>
        have hac : a ≠ c := by
          rintro rfl
          exact hfresh r path hpath' ha
        by_cases hat : r = r₀ ∧ path ++ [j] = path₀ ++ [i]
        · obtain ⟨rfl, heq⟩ := hat
          obtain ⟨rfl, hji⟩ := List.append_inj' heq rfl
          obtain rfl : j = i := by simpa using hji
          obtain rfl : b = a := Option.some.inj (hb.symm.trans ha)
          rw [if_pos ⟨rfl, rfl⟩]
          show link (store (Function.update memory c blank) b j w b j) = some c
          rw [store_self, hlink]
        · rw [if_neg hat]
          show link (store (Function.update memory c blank) b i w a j) = link (memory a j)
          rw [hentry a j hac]
          rintro rfl rfl
          obtain ⟨rfl, rfl⟩ := hunshared hpath' (P.initial hpath₀) ha hb
          exact hat ⟨rfl, rfl⟩

theorem Unshared.attach (hunshared : Unshared link memory P) {r₀ : A} {path₀ : List I} {b : A} {i : I}
    (hpath₀ : P.belongs r₀ (path₀ ++ [i])) (hb : follow link memory r₀ path₀ = some b)
    (hempty : link (memory b i) = none) {c : A} (hfresh : Fresh link memory P c) {w : W}
    (hlink : link w = some c) {blank : I → W} (hblank : ∀ j, link (blank j) = none) :
    Unshared link (store (Function.update memory c blank) b i w) P := by
  intro r path r' path' d hpath hpath' hd hd'
  rw [follow_attach hunshared hpath₀ hb hempty hfresh hlink hblank hpath] at hd
  rw [follow_attach hunshared hpath₀ hb hempty hfresh hlink hblank hpath'] at hd'
  by_cases hnew : r = r₀ ∧ path = path₀ ++ [i] <;>
    by_cases hnew' : r' = r₀ ∧ path' = path₀ ++ [i]
  · exact ⟨hnew.1.trans hnew'.1.symm, hnew.2.trans hnew'.2.symm⟩
  · rw [if_pos hnew] at hd
    rw [if_neg hnew', ← hd] at hd'
    exact absurd hd' (hfresh r' path' hpath')
  · rw [if_pos hnew'] at hd'
    rw [if_neg hnew, ← hd'] at hd
    exact absurd hd (hfresh r path hpath)
  · rw [if_neg hnew] at hd
    rw [if_neg hnew'] at hd'
    exact hunshared hpath hpath' hd hd'

end Updates

end Linux95.Base.LinkedTables
