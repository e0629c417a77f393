import Mathlib.Data.List.Nodup
import Mathlib.Data.List.Induction

/-! Maps of bounded size as lists of pairs with different keys, oldest first: a new key drops the oldest
pair when the map is full, a known key keeps its place. -/

namespace Linux95.Base.FifoMap

variable {κ ν : Type} [DecidableEq κ] {pairs : List (κ × ν)} {cap : Nat} {key key' : κ} {value value' : ν}

def keys (pairs : List (κ × ν)) : List κ := pairs.map Prod.fst

def find (pairs : List (κ × ν)) (key : κ) : Option ν := (pairs.find? fun pair => pair.1 = key).map Prod.snd

def replace (pairs : List (κ × ν)) (key : κ) (value : ν) : List (κ × ν) :=
  pairs.map fun pair => if pair.1 = key then (key, value) else pair

def insert (cap : Nat) (pairs : List (κ × ν)) (key : κ) (value : ν) : List (κ × ν) :=
  if key ∈ keys pairs then replace pairs key value
  else (if pairs.length = cap then pairs.tail else pairs) ++ [(key, value)]

theorem keys_replace : keys (replace pairs key value) = keys pairs := by
  unfold keys replace
  rw [List.map_map]
  refine List.map_congr_left fun pair _ => ?_
  simp only [Function.comp_apply]
  split_ifs with h
  · exact h.symm
  · rfl

theorem nodup_insert (h : (keys pairs).Nodup) : (keys (insert cap pairs key value)).Nodup := by
  unfold insert
  by_cases hmem : key ∈ keys pairs
  · rwa [if_pos hmem, keys_replace]
  · rw [if_neg hmem]
    have hsub : (keys (if pairs.length = cap then pairs.tail else pairs)).Sublist (keys pairs) := by
      refine List.Sublist.map _ ?_
      split_ifs
      · exact List.tail_sublist pairs
      · exact List.Sublist.refl pairs
    unfold keys at hsub ⊢
    rw [List.map_append, List.map_singleton]
    refine List.nodup_append.mpr ⟨h.sublist hsub, List.nodup_singleton _, fun a ha b hb hab => hmem (hsub.subset ?_)⟩
    rwa [hab, List.mem_singleton.mp hb] at ha

theorem find_eq_some_iff (h : (keys pairs).Nodup) : find pairs key = some value ↔ (key, value) ∈ pairs := by
  unfold find
  constructor
  · intro hfind
    obtain ⟨⟨key', value'⟩, hpair, rfl⟩ := Option.map_eq_some_iff.mp hfind
    obtain rfl : key' = key := by simpa using List.find?_some hpair
    exact List.mem_of_find?_eq_some hpair
  · intro hmem
    cases hfind : pairs.find? fun pair => pair.1 = key with
    | none =>
      have hbad := List.find?_eq_none.mp hfind _ hmem
      simp at hbad
    | some pair =>
      have hkey : pair.1 = key := by simpa using List.find?_some hfind
      have hpair := List.inj_on_of_nodup_map h (List.mem_of_find?_eq_some hfind) hmem hkey
      rw [hpair]
      rfl

theorem find_eq_none_iff : find pairs key = none ↔ key ∉ keys pairs := by
  unfold find keys
  rw [Option.map_eq_none_iff, List.find?_eq_none, List.mem_map]
  simp only [decide_eq_true_eq, not_exists, not_and]

theorem find_insert_self (h : (keys pairs).Nodup) : find (insert cap pairs key value) key = some value := by
  rw [find_eq_some_iff (nodup_insert h)]
  unfold insert
  split_ifs with hmem
  · obtain ⟨pair, hpair, hkey⟩ := List.mem_map.mp hmem
    exact List.mem_map.mpr ⟨pair, hpair, if_pos hkey⟩
  · exact List.mem_append_right _ List.mem_cons_self
  · exact List.mem_append_right _ List.mem_cons_self

theorem find_insert_of_ne (h : (keys pairs).Nodup) (hne : key' ≠ key)
    (hfind : find (insert cap pairs key value) key' = some value') : find pairs key' = some value' := by
  rw [find_eq_some_iff (nodup_insert h)] at hfind
  rw [find_eq_some_iff h]
  unfold insert at hfind
  split_ifs at hfind with hmem hfull
  · obtain ⟨pair, hpair, heq⟩ := List.mem_map.mp hfind
    split_ifs at heq with hkey
    · exact absurd (Prod.mk.inj heq).1.symm hne
    · rwa [heq] at hpair
  · obtain htail | hlast := List.mem_append.mp hfind
    · exact List.mem_of_mem_tail htail
    · exact absurd (Prod.mk.inj (List.mem_singleton.mp hlast)).1 hne
  · obtain hold | hlast := List.mem_append.mp hfind
    · exact hold
    · exact absurd (Prod.mk.inj (List.mem_singleton.mp hlast)).1 hne

def run (cap : Nat) (events : List (κ × ν)) : List (κ × ν) :=
  events.foldl (fun pairs event => insert cap pairs event.1 event.2) []

theorem run_append (events : List (κ × ν)) (event : κ × ν) :
    run cap (events ++ [event]) = insert cap (run cap events) event.1 event.2 := by
  unfold run
  rw [List.foldl_append, List.foldl_cons, List.foldl_nil]

theorem nodup_run (events : List (κ × ν)) : (keys (run cap events)).Nodup := by
  induction events using List.reverseRecOn with
  | nil => exact List.nodup_nil
  | append_singleton events event ih =>
    rw [run_append]
    exact nodup_insert ih

theorem find_run_last {events : List (κ × ν)} {event : κ × ν} (h : events.getLast? = some event) :
    find (run cap events) event.1 = some event.2 := by
  obtain ⟨events, rfl⟩ := List.getLast?_eq_some_iff.mp h
  rw [run_append]
  exact find_insert_self (nodup_run events)

theorem find_run (events : List (κ × ν)) (hfind : find (run cap events) key = some value) :
    (events.reverse.find? fun event => event.1 = key) = some (key, value) := by
  induction events using List.reverseRecOn with
  | nil => cases hfind
  | append_singleton events event ih =>
    rw [run_append] at hfind
    rw [List.reverse_append, List.reverse_singleton, List.singleton_append, List.find?_cons]
    by_cases hkey : event.1 = key
    · subst hkey
      rw [find_insert_self (nodup_run events)] at hfind
      rw [decide_eq_true rfl, ← Option.some.inj hfind]
    · rw [decide_eq_false hkey]
      exact ih (find_insert_of_ne (nodup_run events) (Ne.symm hkey) hfind)

end Linux95.Base.FifoMap
