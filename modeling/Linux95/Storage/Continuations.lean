import Linux95.Storage.SingleFault

/-! A computation that goes on where another one has succeeded. The other is a beginning of it without the
handlers: where a request of the beginning is refused, the handlers have run when the computation ends. -/

namespace Linux95.Storage
open Base

/-- On a drive that refuses at most one request, `m` goes on with `k` where `p` succeeds, with a disk that is
in `S`; where `p` fails `m` fails too and leaves a disk in `E`. -/
def GoesOn {α β : Type} (limit : Nat) (m : Io β) (p : Io α) (k : α → Io β) (d : Nat → Sector)
    (S : α → (Nat → Sector) → Prop) (E : (Nat → Sector) → Prop) : Prop :=
  ∀ dev : Device, dev.Once limit → dev.sectors = d →
    (∃ a dev', p.exec dev = (.ok a, dev') ∧ S a dev'.sectors ∧ dev'.Once limit ∧ m.exec dev = (k a).exec dev') ∨
    ((∃ e, (p.exec dev).1 = .error e) ∧ (∃ e, (m.exec dev).1 = .error e) ∧ E (m.exec dev).2.sectors)

section Rules
variable {α β γ : Type} {limit : Nat} {p₀ : Io γ} {f q : γ → Io β} {k : α → Io β} {d d' : Nat → Sector}
  {S : α → (Nat → Sector) → Prop} {E : (Nat → Sector) → Prop} {F : Except Status γ → (Nat → Sector) → Prop}

theorem GoesOn.bind {q : γ → Io α} {c : γ} (hp : OneFault limit p₀ d (.ok c) d' F)
    (hF : ∀ r t, F r t → (∃ e, r = .error e) ∧ E t) (hf : GoesOn limit (f c) (q c) k d' S E) :
    GoesOn limit (p₀ >>= f) (p₀ >>= q) k d S E := by
  intro dev honce hd
  obtain ⟨-, hout⟩ := hp dev honce hd
  rw [Exec.exec_bind, Exec.exec_bind]
  cases hexec : p₀.exec dev with
  | mk r dev' =>
    rw [hexec] at hout
    rcases hout with ⟨rfl, hsec, honce'⟩ | ⟨hE, -, -⟩
    · exact hf dev' honce' hsec
    · obtain ⟨⟨e, rfl⟩, hE'⟩ := hF _ _ hE
      exact Or.inr ⟨⟨e, rfl⟩, ⟨e, rfl⟩, hE'⟩

theorem GoesOn.read {q : γ → Io α} (hp : Reads limit p₀) (hE : E d)
    (hf : ∀ c, value p₀ d = .ok c → GoesOn limit (f c) (q c) k d S E) :
    GoesOn limit (p₀ >>= f) (p₀ >>= q) k d S E := by
  have hreads := oneFault_reads hp d
  cases hv : value p₀ d with
  | ok c =>
    rw [hv] at hreads
    refine .bind hreads ?_ (hf c hv)
    rintro r t ⟨rfl, rfl⟩
    exact ⟨⟨_, rfl⟩, hE⟩
  | error e =>
    rw [hv] at hreads
    intro dev honce hd
    obtain ⟨-, hout⟩ := hreads dev honce hd
    rw [Exec.exec_bind, Exec.exec_bind]
    cases hexec : p₀.exec dev with
    | mk r dev' =>
      rw [hexec] at hout
      rcases hout with ⟨rfl, hsec, -⟩ | ⟨⟨rfl, hsec⟩, -, -⟩
      · exact Or.inr ⟨⟨_, rfl⟩, ⟨_, rfl⟩, by rw [← hsec] at hE; exact hE⟩
      · exact Or.inr ⟨⟨_, rfl⟩, ⟨_, rfl⟩, by rw [← hsec] at hE; exact hE⟩

end Rules

end Linux95.Storage
