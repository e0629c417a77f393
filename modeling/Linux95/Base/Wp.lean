import Mathlib.Control.Monad.Basic
import Mathlib.Tactic.Common

/-! Weakest preconditions for computations that carry a state and may stop with an
error. The state survives the error, so a postcondition has two sides: one for a
returned value and one for an error, both of the final state. -/

namespace Linux95.Base

/-- State-passing computations that may throw; the state reached is kept either way. -/
abbrev Exec (σ ε α : Type) := ExceptT ε (StateM σ) α

variable {σ ε α β : Type}

def Exec.exec (m : Exec σ ε α) (s : σ) : Except ε α × σ := StateT.run (ExceptT.run m) s

def Exec.attempt (m : Exec σ ε α) : Exec σ ε (Except ε α) :=
  ExceptT.mk (fun s => ((.ok (m.exec s).1, (m.exec s).2) : Except ε (Except ε α) × σ))

/-- `m` started at `s` returns a value satisfying `Q` or throws an error satisfying `E`. -/
def wp (m : Exec σ ε α) (Q : α → σ → Prop) (E : ε → σ → Prop) (s : σ) : Prop :=
  match m.exec s with
  | (.ok a, s') => Q a s'
  | (.error e, s') => E e s'

namespace Exec

@[simp] theorem exec_pure (a : α) (s : σ) : (pure a : Exec σ ε α).exec s = (.ok a, s) := rfl

@[simp] theorem exec_throw (e : ε) (s : σ) : (throw e : Exec σ ε α).exec s = (.error e, s) := rfl

theorem exec_bind (m : Exec σ ε α) (f : α → Exec σ ε β) (s : σ) :
    (m >>= f).exec s = match m.exec s with
      | (.ok a, s') => (f a).exec s'
      | (.error e, s') => (.error e, s') := by
  simp only [exec, ExceptT.run_bind, StateT.run_bind]
  cases (StateT.run (ExceptT.run m) s : Id _) with
  | mk r s' => cases r <;> rfl

theorem ext {m m' : Exec σ ε α} (h : ∀ s, m.exec s = m'.exec s) : m = m' := funext h

@[simp] theorem exec_attempt (m : Exec σ ε α) (s : σ) :
    m.attempt.exec s = (.ok (m.exec s).1, (m.exec s).2) := rfl

end Exec

theorem ok_bind (a : α) (f : α → Except ε β) : (Except.ok a >>= f) = f a := rfl

theorem wp_pure {a : α} {Q : α → σ → Prop} {E : ε → σ → Prop} {s : σ} (h : Q a s) :
    wp (pure a) Q E s := h

theorem wp_throw {e : ε} {Q : α → σ → Prop} {E : ε → σ → Prop} {s : σ} (h : E e s) :
    wp (throw e) Q E s := h

theorem wp_mono {m : Exec σ ε α} {Q Q' : α → σ → Prop} {E E' : ε → σ → Prop} {s : σ}
    (h : wp m Q E s) (hQ : ∀ a s', Q a s' → Q' a s') (hE : ∀ e s', E e s' → E' e s') :
    wp m Q' E' s := by
  unfold wp at h ⊢
  cases hm : m.exec s with
  | mk r s' =>
    rw [hm] at h
    cases r with
    | ok a => exact hQ a s' h
    | error e => exact hE e s' h

theorem wp_bind {m : Exec σ ε α} {f : α → Exec σ ε β} {R : α → σ → Prop} {F : ε → σ → Prop}
    {Q : β → σ → Prop} {E : ε → σ → Prop} {s : σ} (h : wp m R F s)
    (hQ : ∀ a s', R a s' → wp (f a) Q E s') (hE : ∀ e s', F e s' → E e s') :
    wp (m >>= f) Q E s := by
  unfold wp at h
  unfold wp
  rw [Exec.exec_bind]
  cases hm : m.exec s with
  | mk r s' =>
    rw [hm] at h
    cases r with
    | ok a => exact hQ a s' h
    | error e => exact hE e s' h

theorem wp_attempt {m : Exec σ ε α} {R : α → σ → Prop} {F : ε → σ → Prop}
    {Q : Except ε α → σ → Prop} {E : ε → σ → Prop} {s : σ} (h : wp m R F s)
    (hQ : ∀ a s', R a s' → Q (.ok a) s') (hE : ∀ e s', F e s' → Q (.error e) s') :
    wp m.attempt Q E s := by
  unfold wp at h
  unfold wp
  rw [Exec.exec_attempt]
  cases hm : m.exec s with
  | mk r s' =>
    rw [hm] at h
    cases r with
    | ok a => exact hQ a s' h
    | error e => exact hE e s' h

theorem wp_ite {c : Prop} [Decidable c] {m n : Exec σ ε α} {Q : α → σ → Prop} {E : ε → σ → Prop}
    {s : σ} (ht : c → wp m Q E s) (hf : ¬c → wp n Q E s) : wp (if c then m else n) Q E s := by
  split
  · exact ht ‹_›
  · exact hf ‹_›

theorem wp_forM {l : List α} {f : α → Exec σ ε PUnit} {I : σ → Prop} {E : ε → σ → Prop}
    (hstep : ∀ a ∈ l, ∀ s, I s → wp (f a) (fun _ => I) E s) {s : σ} (hs : I s) :
    wp (l.forM f) (fun _ => I) E s := by
  induction l generalizing s with
  | nil => exact wp_pure hs
  | cons a l ih =>
    show wp (f a >>= fun _ => l.forM f) (fun _ => I) E s
    apply wp_bind (hstep a List.mem_cons_self s hs)
    · intro _ s' hs'
      exact ih (fun b hb => hstep b (List.mem_cons_of_mem a hb)) hs'
    · exact fun _ _ h => h

theorem wp_forM_progress {l : List α} {f : α → Exec σ ε PUnit} {I : List α → σ → Prop} {E : ε → σ → Prop}
    (hstep : ∀ done a rest, l = done ++ a :: rest → ∀ s, I done s → wp (f a) (fun _ => I (done ++ [a])) E s) {s : σ}
    (hs : I [] s) : wp (l.forM f) (fun _ => I l) E s := by
  suffices hrest : ∀ done rest s, l = done ++ rest → I done s → wp (rest.forM f) (fun _ => I l) E s from
    hrest [] l s rfl hs
  intro done rest
  induction rest generalizing done with
  | nil =>
    intro s hl hs
    rw [hl, List.append_nil]
    exact wp_pure hs
  | cons a rest ih =>
    intro s hl hs
    show wp (f a >>= fun _ => rest.forM f) (fun _ => I l) E s
    apply wp_bind (hstep done a rest hl s hs)
    · intro _ s' hs'
      exact ih (done ++ [a]) s' (by rw [hl, List.append_assoc]; rfl) hs'
    · exact fun _ _ h => h

theorem wp_and {m : Exec σ ε α} {Q Q' : α → σ → Prop} {E E' : ε → σ → Prop} {s : σ}
    (h : wp m Q E s) (h' : wp m Q' E' s) :
    wp m (fun a s' => Q a s' ∧ Q' a s') (fun e s' => E e s' ∧ E' e s') s := by
  unfold wp at *
  cases hm : m.exec s with
  | mk r s' =>
    rw [hm] at h h'
    cases r with
    | ok a => exact ⟨h, h'⟩
    | error e => exact ⟨h, h'⟩

theorem wp_iff {m : Exec σ ε α} {Q : α → σ → Prop} {E : ε → σ → Prop} {s : σ} :
    wp m Q E s ↔ (∀ a, (m.exec s).1 = .ok a → Q a (m.exec s).2) ∧
      (∀ e, (m.exec s).1 = .error e → E e (m.exec s).2) := by
  unfold wp
  cases hm : m.exec s with
  | mk r s' => cases r <;> simp

/-- `m` never leaves the invariant `I`, whether it returns or throws. -/
def Keeps (I : σ → Prop) (m : Exec σ ε α) : Prop := ∀ s, I s → I (m.exec s).2

section Keeps
variable {I : σ → Prop}

theorem keeps_of_wp {m : Exec σ ε α} (h : ∀ s, I s → wp m (fun _ => I) (fun _ => I) s) :
    Keeps I m := by
  intro s hs
  have hm := wp_iff.mp (h s hs)
  cases hr : (m.exec s).1 with
  | ok a => exact hm.1 a hr
  | error e => exact hm.2 e hr

theorem Keeps.wp {m : Exec σ ε α} (h : Keeps I m) {s : σ} (hs : I s) :
    wp m (fun _ => I) (fun _ => I) s := wp_iff.mpr ⟨fun _ _ => h s hs, fun _ _ => h s hs⟩

theorem keeps_pure (a : α) : Keeps I (pure a : Exec σ ε α) := fun _ hs => hs

theorem keeps_throw (e : ε) : Keeps I (throw e : Exec σ ε α) := fun _ hs => hs

theorem keeps_bind {m : Exec σ ε α} {f : α → Exec σ ε β} (hm : Keeps I m)
    (hf : ∀ a, Keeps I (f a)) : Keeps I (m >>= f) :=
  keeps_of_wp fun _ hs => wp_bind (hm.wp hs) (fun a _ h => (hf a).wp h) (fun _ _ h => h)

theorem keeps_attempt {m : Exec σ ε α} (hm : Keeps I m) : Keeps I m.attempt :=
  fun s hs => hm s hs

theorem keeps_ite {c : Prop} [Decidable c] {m m' : Exec σ ε α} (hm : c → Keeps I m)
    (hm' : ¬c → Keeps I m') : Keeps I (if c then m else m') := by
  split
  · exact hm ‹_›
  · exact hm' ‹_›

end Keeps

end Linux95.Base
