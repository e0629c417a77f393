import Mathlib.Data.List.Infix

/-! Directories that give names a meaning, and the paths through them: what becomes of every path when one
name gets another meaning, and when an entry gets another name. -/

namespace Linux95.Base

/-- `find n k` is the entry of the directory `n` with the name `k`, and `child` the directory that an entry
stands for. -/
structure Naming (N K V : Type) where
  root : N
  find : N → K → Option V
  child : V → Option N

namespace Naming
variable {N K V : Type}

def walk (f : Naming N K V) : N → List K → Option N
  | n, [] => some n
  | n, k :: path => ((f.find n k).bind f.child).bind fun m => f.walk m path

def get (f : Naming N K V) (n : N) (path : List K) : Option V :=
  (f.walk n path.dropLast).bind fun m => path.getLast?.bind (f.find m)

structure Unique (f : Naming N K V) : Prop where
  parent : ∀ q q' n n' k k' v v' m, f.walk f.root q = some n → f.walk f.root q' = some n' → f.find n k = some v →
    f.find n' k' = some v' → f.child v = some m → f.child v' = some m → n = n' ∧ k = k'
  root : ∀ q n k v, f.walk f.root q = some n → f.find n k = some v → f.child v ≠ some f.root

structure Sets (f f' : Naming N K V) (p : N) (k : K) (v : Option V) : Prop where
  root : f'.root = f.root
  child : f'.child = f.child
  here : f'.find p k = v
  other : ∀ q n k', f.walk f.root q = some n → (n = p → k' ≠ k) → f'.find n k' = f.find n k'

structure Renames (f f' : Naming N K V) (p : N) (k k' : K) : Prop where
  root : f'.root = f.root
  child : f'.child = f.child
  gone : f'.find p k = none
  here : f'.find p k' = f.find p k
  other : ∀ q n k'', f.walk f.root q = some n → (n = p → k'' ≠ k ∧ k'' ≠ k') → f'.find n k'' = f.find n k''

section Paths
variable {f f' : Naming N K V} {n m p : N} {k k' : K} {v : Option V} {q path rest : List K}

theorem walk_cons (f : Naming N K V) (n : N) (k : K) (path : List K) :
    f.walk n (k :: path) = ((f.find n k).bind f.child).bind fun m => f.walk m path := rfl

theorem walk_append (f : Naming N K V) (n : N) (path path' : List K) :
    f.walk n (path ++ path') = (f.walk n path).bind fun m => f.walk m path' := by
  induction path generalizing n with
  | nil => rfl
  | cons k path ih =>
    rw [List.cons_append, walk_cons, walk_cons]
    cases (f.find n k).bind f.child with
    | none => rfl
    | some m => exact ih m

theorem walk_concat (f : Naming N K V) (n : N) (path : List K) (k : K) :
    f.walk n (path ++ [k]) = (f.walk n path).bind fun m => (f.find m k).bind f.child := by
  rw [walk_append]
  congr 1
  funext m
  rw [walk_cons]
  exact Option.bind_fun_some _

theorem get_concat (f : Naming N K V) (n : N) (path : List K) (k : K) :
    f.get n (path ++ [k]) = (f.walk n path).bind fun m => f.find m k := by
  unfold get
  rw [List.dropLast_concat, List.getLast?_concat]
  rfl

theorem get_append (hne : rest ≠ []) : f.get n (q ++ rest) = (f.walk n q).bind fun m => f.get m rest := by
  obtain ⟨rest, k, rfl⟩ := (List.eq_nil_or_concat' rest).resolve_left hne
  rw [← List.append_assoc, get_concat, walk_append, Option.bind_assoc]
  congr 1
  funext m
  exact (get_concat f m rest k).symm

theorem get_cons (hne : rest ≠ []) :
    f.get n (k :: rest) = ((f.find n k).bind f.child).bind fun m => f.get m rest := by
  rw [← List.singleton_append, get_append hne, walk_cons, Option.bind_assoc]
  rfl

theorem get_under (hp : f.walk n q = some p) (hempty : ∀ v m k', f.find p k = some v → f.child v = some m → f.find m k' = none)
    (hne : rest ≠ []) : f.get n (q ++ k :: rest) = none := by
  rw [get_append (List.cons_ne_nil k rest), hp, Option.bind_some, get_cons hne]
  cases hstep : (f.find p k).bind f.child with
  | none => rfl
  | some m =>
    obtain ⟨v, hv, hchild⟩ := Option.bind_eq_some_iff.mp hstep
    obtain ⟨k', rest, rfl⟩ := List.exists_cons_of_ne_nil hne
    have hnone := hempty v m k' hv hchild
    rw [Option.bind_some]
    cases rest with
    | nil => exact hnone
    | cons k'' rest =>
      rw [get_cons (List.cons_ne_nil _ _), hnone]
      rfl

theorem walk_congr (hchild : f'.child = f.child)
    (h : ∀ before k after m, path = before ++ k :: after → f.walk n before = some m → f'.find m k = f.find m k) :
    f'.walk n path = f.walk n path := by
  induction path generalizing n with
  | nil => rfl
  | cons k path ih =>
    rw [walk_cons, walk_cons, h [] k path n rfl rfl, hchild]
    cases hstep : (f.find n k).bind f.child with
    | none => rfl
    | some m =>
      refine ih fun before k' after m' hpath hwalk => h (k :: before) k' after m' (by rw [hpath]; rfl) ?_
      rw [walk_cons, hstep]
      exact hwalk

theorem get_congr (hchild : f'.child = f.child)
    (h : ∀ before k after m, path = before ++ k :: after → f.walk n before = some m → f'.find m k = f.find m k) :
    f'.get n path = f.get n path := by
  rcases List.eq_nil_or_concat' path with rfl | ⟨before, k, rfl⟩
  · rfl
  · have hwalk : f'.walk n before = f.walk n before :=
      walk_congr hchild fun start k' after m hsplit => h start k' (after ++ [k]) m (by rw [hsplit]; simp)
    rw [get_concat, get_concat, hwalk]
    cases hm : f.walk n before with
    | none => rfl
    | some m => exact h before k [] m rfl hm

theorem Unique.same_path (h : f.Unique) {q' : List K} (hq : f.walk f.root q = some n)
    (hq' : f.walk f.root q' = some n) : q = q' := by
  induction q using List.reverseRecOn generalizing q' n with
  | nil =>
    obtain rfl := Option.some.inj hq
    rcases List.eq_nil_or_concat' q' with rfl | ⟨path, k, rfl⟩
    · rfl
    · rw [walk_concat] at hq'
      obtain ⟨m, hm, hstep⟩ := Option.bind_eq_some_iff.mp hq'
      obtain ⟨v, hv, hchild⟩ := Option.bind_eq_some_iff.mp hstep
      exact absurd hchild (h.root _ _ _ _ hm hv)
  | append_singleton path k ih =>
    rw [walk_concat] at hq
    obtain ⟨m, hm, hstep⟩ := Option.bind_eq_some_iff.mp hq
    obtain ⟨v, hv, hchild⟩ := Option.bind_eq_some_iff.mp hstep
    rcases List.eq_nil_or_concat' q' with rfl | ⟨path', k', rfl⟩
    · obtain rfl := Option.some.inj hq'
      exact absurd hchild (h.root _ _ _ _ hm hv)
    · rw [walk_concat] at hq'
      obtain ⟨m', hm', hstep'⟩ := Option.bind_eq_some_iff.mp hq'
      obtain ⟨v', hv', hchild'⟩ := Option.bind_eq_some_iff.mp hstep'
      obtain ⟨rfl, rfl⟩ := h.parent _ _ _ _ _ _ _ _ _ hm hm' hv hv' hchild hchild'
      rw [ih hm hm']

theorem Unique.passes (h : f.Unique) (hq : f.walk f.root q = some p) {before after : List K}
    (hsplit : path = before ++ k :: after) (hbefore : f.walk f.root before = some p) : path = q ++ k :: after := by
  rw [h.same_path hq hbefore]
  exact hsplit

end Paths

section Sets
variable {f f' : Naming N K V} {p : N} {k : K} {v : Option V} {q path rest : List K} (hunique : f.Unique)
  (hq : f.walk f.root q = some p) (h : f.Sets f' p k v)
include hunique hq h

theorem Sets.step {before after : List K} {k' : K} {m : N} (hsplit : path = before ++ k' :: after)
    (hwalk : f.walk f.root before = some m) (hpath : ∀ rest, path ≠ q ++ k :: rest) : f'.find m k' = f.find m k' := by
  refine h.other before m k' hwalk ?_
  rintro rfl rfl
  exact hpath after (hunique.passes hq hsplit hwalk)

theorem Sets.walk_here : f'.walk f.root q = some p := by
  rw [walk_congr h.child fun before k' after m hsplit hwalk => h.step hunique hq hsplit hwalk fun rest heq => ?_, hq]
  have hlength := congrArg List.length heq
  rw [List.length_append, List.length_cons] at hlength
  omega

theorem Sets.get (hold : ∀ e m k', f.find p k = some e → f.child e = some m → f.find m k' = none)
    (hnew : ∀ e m k', v = some e → f.child e = some m → f'.find m k' = none) [DecidableEq K] (path : List K) :
    f'.get f'.root path = if path = q ++ [k] then v else f.get f.root path := by
  have hhere := h.walk_here hunique hq
  rw [h.root]
  split_ifs with hpath
  · rw [hpath, get_concat, hhere]
    exact h.here
  · by_cases hunder : ∃ rest, path = q ++ k :: rest
    -- beneath the name there is nothing before and after
    · obtain ⟨rest, rfl⟩ := hunder
      have hne : rest ≠ [] := by
        rintro rfl
        exact hpath rfl
      rw [get_under hq hold hne, get_under hhere ?_ hne]
      intro e m k' he hchild
      rw [h.here] at he
      rw [h.child] at hchild
      exact hnew e m k' he hchild
    · push Not at hunder
      exact get_congr h.child fun before k' after m hsplit hwalk => h.step hunique hq hsplit hwalk hunder

omit hunique hq in
theorem Sets.walk_kept (hold : ∀ e, f.find p k = some e → f.child e = none) {n : N} {path : List K}
    (hpath : f.walk f.root path = some n) : f'.walk f.root path = some n := by
  induction path using List.reverseRecOn generalizing n with
  | nil => exact hpath
  | append_singleton path k' ih =>
    rw [walk_concat] at hpath ⊢
    obtain ⟨m, hm, hstep⟩ := Option.bind_eq_some_iff.mp hpath
    obtain ⟨e, he, hchild⟩ := Option.bind_eq_some_iff.mp hstep
    have hsame : f'.find m k' = f.find m k' := by
      refine h.other path m k' hm ?_
      rintro rfl rfl
      rw [hold e he] at hchild
      cases hchild
    rw [ih hm, Option.bind_some, hsame, h.child]
    exact hstep

end Sets

section Renames
variable {f f' : Naming N K V} {p : N} {k k' : K} {q path : List K} (hunique : f.Unique)
  (hq : f.walk f.root q = some p) (h : f.Renames f' p k k')
include hunique hq h

theorem Renames.step {before after : List K} {k₀ : K} {m : N} (hsplit : path = before ++ k₀ :: after)
    (hwalk : f.walk f.root before = some m) (hpath : ∀ rest, path ≠ q ++ k :: rest)
    (hpath' : ∀ rest, path ≠ q ++ k' :: rest) : f'.find m k₀ = f.find m k₀ := by
  refine h.other before m k₀ hwalk ?_
  rintro rfl
  constructor
  · rintro rfl
    exact hpath after (hunique.passes hq hsplit hwalk)
  · rintro rfl
    exact hpath' after (hunique.passes hq hsplit hwalk)

theorem Renames.get_other (hpath : ∀ rest, path ≠ q ++ k :: rest) (hpath' : ∀ rest, path ≠ q ++ k' :: rest) :
    f'.get f'.root path = f.get f.root path := by
  rw [h.root]
  exact get_congr h.child fun before k₀ after m hsplit hwalk => h.step hunique hq hsplit hwalk hpath hpath'

theorem Renames.walk_here : f'.walk f.root q = some p := by
  have hlonger : ∀ (k₀ : K) (rest : List K), q ≠ q ++ k₀ :: rest := by
    intro k₀ rest heq
    have hlength := congrArg List.length heq
    rw [List.length_append, List.length_cons] at hlength
    omega
  rw [walk_congr h.child fun before k₀ after m hsplit hwalk =>
    h.step hunique hq hsplit hwalk (hlonger k) (hlonger k'), hq]

theorem Renames.get_old (rest : List K) : f'.get f'.root (q ++ k :: rest) = none := by
  rw [h.root, get_append (List.cons_ne_nil k rest), h.walk_here hunique hq, Option.bind_some]
  cases rest with
  | nil => exact h.gone
  | cons k₀ rest =>
    rw [get_cons (List.cons_ne_nil _ _), h.gone]
    rfl

theorem Renames.get_new (rest : List K) : f'.get f'.root (q ++ k' :: rest) = f.get f.root (q ++ k :: rest) := by
  rw [h.root, get_append (List.cons_ne_nil _ _), get_append (List.cons_ne_nil _ _), h.walk_here hunique hq, hq,
    Option.bind_some, Option.bind_some]
  cases rest with
  | nil => exact h.here
  | cons k₀ rest =>
    rw [get_cons (List.cons_ne_nil _ _), get_cons (List.cons_ne_nil _ _), h.here, h.child]
    cases hm : (f.find p k).bind f.child with
    | none => rfl
    | some m =>
      rw [Option.bind_some, Option.bind_some]
      refine get_congr h.child fun before k₁ after m' hsplit hwalk => ?_
      -- no path comes back to the directory
      have hreach : f.walk f.root (q ++ k :: before) = some m' := by
        rw [walk_append, hq, Option.bind_some, walk_cons, hm]
        exact hwalk
      refine h.other (q ++ k :: before) m' k₁ hreach ?_
      rintro rfl
      have hlength := congrArg List.length (hunique.same_path hq hreach)
      rw [List.length_append, List.length_cons] at hlength
      omega

end Renames

end Naming

end Linux95.Base
