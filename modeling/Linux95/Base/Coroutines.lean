import Mathlib.Logic.Function.Basic
import Mathlib.Tactic.Common

/-! Tasks that take turns. Each is created with a value, resumed with it, and gives its turn up with a new
one; at most one has the turn. -/

namespace Linux95.Base

inductive Turn (T V : Type)
  | create (task : T) (value : V)
  | resume (task : T) (value : V)
  | suspend (task : T) (value : V)
  | finish (task : T)
  deriving DecidableEq

namespace Turn
variable {T V : Type}

def task : Turn T V → T
  | create task _ | resume task _ | suspend task _ | finish task => task

def left : Turn T V → Option V
  | create _ value | suspend _ value => some value
  | resume _ _ | finish _ => none

def active : Turn T V → Option T
  | resume task _ => some task
  | create _ _ | suspend _ _ | finish _ => none

end Turn

/-- The task that has the turn, and the values the others wait with. -/
@[ext]
structure Turns (T V : Type) where
  active : Option T
  waiting : T → Option V

namespace Turns
variable {T V : Type} [DecidableEq T]

def Allows (s : Turns T V) : Turn T V → Prop
  | .create task _ => s.active = none ∧ s.waiting task = none
  | .resume task value => s.active = none ∧ s.waiting task = some value
  | .suspend task _ | .finish task => s.active = some task

def take (s : Turns T V) (turn : Turn T V) : Turns T V :=
  ⟨turn.active, Function.update s.waiting turn.task turn.left⟩

inductive Leads : Turns T V → List (Turn T V) → Turns T V → Prop
  | nil (s : Turns T V) : Leads s [] s
  | cons {s t : Turns T V} {turn : Turn T V} {turns : List (Turn T V)} (allowed : s.Allows turn)
      (rest : Leads (s.take turn) turns t) : Leads s (turn :: turns) t

variable {s t u : Turns T V} {turn : Turn T V} {turns turns' : List (Turn T V)} {task : T} {value : V}

theorem Leads.single (h : s.Allows turn) : Leads s [turn] (s.take turn) := .cons h (.nil _)

theorem Leads.append (h : Leads s turns t) (h' : Leads t turns' u) : Leads s (turns ++ turns') u := by
  induction h with
  | nil => exact h'
  | cons allowed _ ih => exact .cons allowed (ih h')

theorem Leads.split (h : Leads s (turns ++ turns') u) : ∃ t, Leads s turns t ∧ Leads t turns' u := by
  induction turns generalizing s with
  | nil => exact ⟨s, .nil s, h⟩
  | cons turn turns ih =>
    cases h with
    | cons allowed rest =>
      obtain ⟨t, hfirst, hsecond⟩ := ih rest
      exact ⟨t, .cons allowed hfirst, hsecond⟩

theorem Leads.others (h : Leads s turns t) (hne : ∀ turn ∈ turns, turn.task ≠ task) :
    t.waiting task = s.waiting task := by
  induction h with
  | nil => rfl
  | cons _ _ ih =>
    rw [ih fun turn hturn => hne turn (List.mem_cons_of_mem _ hturn)]
    exact Function.update_of_ne (hne _ List.mem_cons_self).symm ..

theorem Leads.resumed {last : Turn T V} {mid rest : List (Turn T V)}
    (h : Leads s (turns ++ last :: (mid ++ .resume last.task value :: rest)) t)
    (hmid : ∀ turn ∈ mid, turn.task ≠ last.task) : last.left = some value := by
  obtain ⟨u, -, h⟩ := h.split
  cases h with
  | cons _ h =>
    obtain ⟨w, hothers, h⟩ := h.split
    cases h with
    | cons allowed _ =>
      have hself : (u.take last).waiting last.task = last.left := Function.update_self ..
      exact (hself.symm.trans (hothers.others hmid).symm).trans allowed.2

theorem Leads.exclusive {mid rest : List (Turn T V)} {next : Turn T V}
    (h : Leads s (turns ++ .resume task value :: (mid ++ next :: rest)) t)
    (hmid : ∀ turn ∈ mid, turn.task ≠ task) : mid = [] ∧ (next = .finish task ∨ ∃ value, next = .suspend task value) := by
  obtain ⟨u, -, h⟩ := h.split
  cases h with
  | cons _ h =>
    -- the next turn is of the task that has the turn
    have hnext : ∀ {s' : Turns T V} {turn : Turn T V}, s'.active = some task → s'.Allows turn →
        turn = .finish task ∨ ∃ value, turn = .suspend task value := by
      intro s' turn hactive hallowed
      cases turn with
      | create => cases hactive.symm.trans hallowed.1
      | resume => cases hactive.symm.trans hallowed.1
      | suspend =>
        obtain rfl := Option.some.inj (hactive.symm.trans hallowed)
        exact Or.inr ⟨_, rfl⟩
      | finish =>
        obtain rfl := Option.some.inj (hactive.symm.trans hallowed)
        exact Or.inl rfl
    cases mid with
    | nil =>
      cases h with
      | cons allowed _ => exact ⟨rfl, hnext rfl allowed⟩
    | cons turn mid =>
      cases h with
      | cons allowed _ =>
        refine absurd ?_ (hmid turn List.mem_cons_self)
        rcases hnext rfl allowed with rfl | ⟨value, rfl⟩ <;> rfl

end Turns

end Linux95.Base
