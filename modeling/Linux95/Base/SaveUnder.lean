import Mathlib.Logic.Function.Basic
import Mathlib.Tactic.Common

/-! Saving what an image has under a list of addresses, and writing it back. An address outside of the
image has no place, and an access there stops the program. -/

namespace Linux95.Base

variable {Q P C : Type} [DecidableEq P]

def readAt (locate : Q → Option P) (image : P → C) (q : Q) : Option C := (locate q).map image

def writeAt (locate : Q → Option P) (image : P → C) (q : Q) (value : C) : Option (P → C) :=
  (locate q).map fun p => Function.update image p value

def readAll (locate : Q → Option P) (image : P → C) : List Q → Option (List C)
  | [] => some []
  | q :: addresses => do
    let value ← readAt locate image q
    let values ← readAll locate image addresses
    pure (value :: values)

/-- The addresses that have no value any more keep what the image has. -/
def writeAll (locate : Q → Option P) : List Q → List C → (P → C) → Option (P → C)
  | q :: addresses, value :: values, image => do
    let image ← writeAt locate image q value
    writeAll locate addresses values image
  | _, _, image => some image

def SameOutside (locate : Q → Option P) (addresses : List Q) (image image' : P → C) : Prop :=
  ∀ p, (∀ q ∈ addresses, locate q ≠ some p) → image' p = image p

section SaveUnder
variable {locate : Q → Option P} {image image' : P → C}

theorem sameOutside_update {q : Q} {p : P} {addresses : List Q} (hq : locate q = some p)
    (h : SameOutside locate (q :: addresses) image image') :
    SameOutside locate addresses image (Function.update image' p (image p)) := by
  intro p' hp'
  by_cases heq : p' = p
  · subst heq
    exact Function.update_self ..
  · rw [Function.update_of_ne heq]
    apply h
    intro q' hq'
    rcases List.mem_cons.mp hq' with rfl | hq'
    · rw [hq]
      exact fun hsome => heq (Option.some.inj hsome).symm
    · exact hp' q' hq'

/-- Writing back what was read undoes every change at the addresses, also where two of them are one place. -/
theorem writeAll_readAll {addresses : List Q} (hplaces : ∀ q ∈ addresses, ∃ p, locate q = some p)
    (image : P → C) : ∃ values, readAll locate image addresses = some values ∧
      ∀ image', SameOutside locate addresses image image' →
        writeAll locate addresses values image' = some image := by
  induction addresses with
  | nil =>
    refine ⟨[], rfl, fun image' h => ?_⟩
    exact congrArg some (funext fun p => h p fun _ hq => absurd hq List.not_mem_nil)
  | cons q addresses ih =>
    obtain ⟨p, hp⟩ := hplaces q List.mem_cons_self
    obtain ⟨values, hread, hwrite⟩ := ih fun q' hq' => hplaces q' (List.mem_cons_of_mem q hq')
    refine ⟨image p :: values, ?_, fun image' h => ?_⟩
    · rw [readAll, readAt, hp, hread]
      rfl
    · rw [writeAll, writeAt, hp]
      exact hwrite _ (sameOutside_update hp h)

end SaveUnder

end Linux95.Base
