import Linux95.Storage.Effects

/-! Runs in which the drive refuses at most one request and leaves the sector of a refused write alone.
Until that request a computation does what it does on a ready drive, and behind it the drive is ready
again: a rollback can be computed. -/

namespace Linux95.Storage
open Base

def Device.Clean (dev : Device) : Prop := ∀ n, dev.faults n ≠ .applied

structure Device.Once (dev : Device) (limit : Nat) : Prop where
  present : dev.present = true
  room : limit ≤ dev.sectorCount
  clean : dev.Clean
  single : ∀ m n, dev.faults m ≠ .none → dev.faults n ≠ .none → m = n

theorem Device.Ready.once {dev : Device} {limit : Nat} (h : dev.Ready limit) : dev.Once limit where
  present := h.1.1
  room := h.2
  clean := fun n => by rw [h.1.2 n]; decide
  single := fun m _ hm => absurd (h.1.2 m) hm

/-- On a drive that refuses at most one request, `m` has the outcome `r` and leaves `d'`; where its
refused request is among those of `m`, outcome and disk are in `E`, and the drive is ready afterwards. -/
def OneFault {α : Type} (limit : Nat) (m : Io α) (d : Nat → Sector) (r : Except Status α)
    (d' : Nat → Sector) (E : Except Status α → (Nat → Sector) → Prop) : Prop :=
  ∀ dev : Device, dev.Once limit → dev.sectors = d → Same dev (m.exec dev).2 ∧
    ((m.exec dev).1 = r ∧ (m.exec dev).2.sectors = d' ∧ (m.exec dev).2.Once limit ∨
      E (m.exec dev).1 (m.exec dev).2.sectors ∧ ¬ dev.Ready limit ∧ (m.exec dev).2.Ready limit)

def Refused {α : Type} (d : Nat → Sector) (r : Except Status α) (d' : Nat → Sector) : Prop :=
  r = .error .ioError ∧ d' = d

section Requests
variable {dev : Device} {limit lba : Nat}

theorem Device.Once.tick (h : dev.Once limit) : dev.tick.Once limit where
  present := h.present
  room := h.room
  clean := fun n => h.clean (n + 1)
  single := fun m n hm hn => Nat.succ.inj (h.single (m + 1) (n + 1) hm hn)

theorem Device.Once.hit (h : dev.Once limit) (hf : dev.faults 0 ≠ .none) :
    dev.tick.Ready limit ∧ ¬ dev.Ready limit := by
  refine ⟨⟨⟨h.present, fun n => ?_⟩, h.room⟩, fun hr => hf (hr.1.2 0)⟩
  by_contra hne
  exact nomatch h.single 0 (n + 1) hf hne

theorem Device.Once.inRange (h : dev.Once limit) (hlba : lba < limit) :
    (!dev.present || dev.outOfRange lba) = false := by
  have hlt : ¬ dev.sectorCount ≤ lba := Nat.not_le.mpr (hlba.trans_le h.room)
  unfold Device.outOfRange
  rw [h.present, decide_eq_false hlt]
  simp

theorem Device.Once.exec_read (h : dev.Once limit) (hlba : lba < limit) : (readSector lba).exec dev =
    if dev.faults 0 = .none then (.ok (dev.sectors lba), dev.tick) else (.error .ioError, dev.tick) := by
  show (if (!dev.present || dev.outOfRange lba) = true then _ else _) = _
  rw [h.inRange hlba, if_neg Bool.false_ne_true]

theorem Device.Once.exec_write (h : dev.Once limit) (hlba : lba < limit) (region : Region) (s : Sector) :
    (writeSector region lba s).exec dev =
      if dev.faults 0 = .none then
        (.ok (), { dev.tick with sectors := Function.update dev.sectors lba s, written := (region, lba) :: dev.written })
      else (.error .ioError, { dev.tick with written := (region, lba) :: dev.written }) := by
  unfold writeSector Exec.exec
  simp only [ExceptT.run_mk, StateT.run, h.inRange hlba]
  rw [if_neg Bool.false_ne_true]
  cases hf : dev.faults 0 with
  | none => rfl
  | refused => rfl
  | applied => exact absurd hf (h.clean 0)

theorem oneFault_read (hlba : lba < limit) (d : Nat → Sector) :
    OneFault limit (readSector lba) d (.ok (d lba)) d (Refused d) := by
  rintro dev honce rfl
  rw [honce.exec_read hlba]
  by_cases hf : dev.faults 0 = .none
  · rw [if_pos hf]
    exact ⟨Same.tick dev, Or.inl ⟨rfl, rfl, honce.tick⟩⟩
  · obtain ⟨hready, hnot⟩ := honce.hit hf
    rw [if_neg hf]
    exact ⟨Same.tick dev, Or.inr ⟨⟨rfl, rfl⟩, hnot, hready⟩⟩

theorem oneFault_write (region : Region) (hlba : lba < limit) (s : Sector) (d : Nat → Sector) :
    OneFault limit (writeSector region lba s) d (.ok ()) (Function.update d lba s) (Refused d) := by
  rintro dev honce rfl
  have hsame : ∀ t w, Same dev { dev.tick with sectors := t, written := w } := fun t w =>
    ⟨rfl, rfl, fun h => ⟨h.1, fun n => h.2 (n + 1)⟩⟩
  rw [honce.exec_write hlba]
  by_cases hf : dev.faults 0 = .none
  · have htick := honce.tick
    rw [if_pos hf]
    exact ⟨hsame _ _, Or.inl ⟨rfl, rfl, ⟨htick.present, htick.room, htick.clean, htick.single⟩⟩⟩
  · obtain ⟨hready, hnot⟩ := honce.hit hf
    rw [if_neg hf]
    exact ⟨hsame _ _, Or.inr ⟨⟨rfl, rfl⟩, hnot, hready⟩⟩

end Requests

section Rules
variable {α β : Type} {limit : Nat} {m : Io α} {f : α → Io β} {d d' d'' : Nat → Sector}
  {E : Except Status α → (Nat → Sector) → Prop} {F : Except Status β → (Nat → Sector) → Prop}

theorem OneFault.pure (a : α) : OneFault limit (Pure.pure a : Io α) d (.ok a) d E :=
  fun dev honce hd => ⟨.refl dev, Or.inl ⟨rfl, hd, honce⟩⟩

theorem OneFault.throw (e : Status) : OneFault limit (MonadExcept.throw e : Io α) d (.error e) d E :=
  fun dev honce hd => ⟨.refl dev, Or.inl ⟨rfl, hd, honce⟩⟩

theorem OneFault.does {r : Except Status α} (h : OneFault limit m d r d' E) : Does limit m d r d' := by
  intro dev hready hd
  obtain ⟨hsame, ⟨hr, hsec, -⟩ | ⟨-, hnot, -⟩⟩ := h dev hready.once hd
  · exact ⟨hr, hsec, hsame⟩
  · exact absurd hready hnot

theorem survived {x : Except Status α} {dev dev' : Device} (hexec : m.exec dev = (x, dev')) (hE : E x dev'.sectors)
    (hready : dev'.Ready limit) (herror : ∀ e t, E (.error e) t → F (.error e) t)
    (hok : ∀ b t, E (.ok b) t → ∃ r' t', Does limit (f b) t r' t' ∧ F r' t') :
    Same dev' ((m >>= f).exec dev).2 ∧ F ((m >>= f).exec dev).1 ((m >>= f).exec dev).2.sectors ∧
      ((m >>= f).exec dev).2.Ready limit := by
  -- behind a refused request inside `m`, the rest runs on a ready drive
  rw [Exec.exec_bind, hexec]
  cases x with
  | error e => exact ⟨.refl dev', herror e _ hE, hready⟩
  | ok b =>
    obtain ⟨r', t', hdoes, hF⟩ := hok b _ hE
    obtain ⟨hr', hsec', hsame'⟩ := hdoes dev' hready rfl
    refine ⟨hsame', ?_, hsame'.ready hready⟩
    rw [← hr', ← hsec'] at hF
    exact hF

theorem OneFault.bind {a : α} {r : Except Status β} (hm : OneFault limit m d (.ok a) d' E)
    (hf : OneFault limit (f a) d' r d'' F) (herror : ∀ e t, E (.error e) t → F (.error e) t)
    (hok : ∀ b t, E (.ok b) t → ∃ r' t', Does limit (f b) t r' t' ∧ F r' t') :
    OneFault limit (m >>= f) d r d'' F := by
  intro dev honce hd
  obtain ⟨hsame, ⟨hr, hsec, honce'⟩ | ⟨hE, hnot, hready⟩⟩ := hm dev honce hd
  · obtain ⟨hsame', hout'⟩ := hf (m.exec dev).2 honce' hsec
    have hm' : m.exec dev = (.ok a, (m.exec dev).2) := Prod.ext hr rfl
    have hexec : (m >>= f).exec dev = (f a).exec (m.exec dev).2 := by
      rw [Exec.exec_bind, hm']
    rw [hexec]
    refine ⟨hsame.trans hsame', hout'.imp id fun hhit => ⟨hhit.1, fun hr => ?_, hhit.2.2⟩⟩
    exact hhit.2.1 (hsame.ready hr)
  · obtain ⟨hsame', hF, hready'⟩ := survived rfl hE hready herror hok
    exact ⟨hsame.trans hsame', Or.inr ⟨hF, hnot, hready'⟩⟩

theorem OneFault.bind_error {e : Status} (hm : OneFault limit m d (.error e) d' E) (f : α → Io β)
    (herror : ∀ e t, E (.error e) t → F (.error e) t)
    (hok : ∀ b t, E (.ok b) t → ∃ r' t', Does limit (f b) t r' t' ∧ F r' t') :
    OneFault limit (m >>= f) d (.error e) d' F := by
  intro dev honce hd
  obtain ⟨hsame, ⟨hr, hsec, honce'⟩ | ⟨hE, hnot, hready⟩⟩ := hm dev honce hd
  · have hm' : m.exec dev = (.error e, (m.exec dev).2) := Prod.ext hr rfl
    have hexec : (m >>= f).exec dev = (.error e, (m.exec dev).2) := by
      rw [Exec.exec_bind, hm']
    rw [hexec]
    exact ⟨hsame, Or.inl ⟨rfl, hsec, honce'⟩⟩
  · obtain ⟨hsame', hF, hready'⟩ := survived rfl hE hready herror hok
    exact ⟨hsame.trans hsame', Or.inr ⟨hF, hnot, hready'⟩⟩

theorem OneFault.bind_refused {a : α} {r : Except Status β} (hm : OneFault limit m d (.ok a) d' (Refused d))
    (hf : OneFault limit (f a) d' r d'' F) (hF : F (.error .ioError) d) :
    OneFault limit (m >>= f) d r d'' F := by
  refine hm.bind hf ?_ fun b t h => (nomatch h.1)
  rintro e t ⟨he, rfl⟩
  rw [Except.error.inj he]
  exact hF

theorem OneFault.attempt {r : Except Status α} (hm : OneFault limit m d r d' E) :
    OneFault limit m.attempt d (.ok r) d' (fun r' t => ∃ x, r' = .ok x ∧ E x t) := by
  intro dev honce hd
  obtain ⟨hsame, hout⟩ := hm dev honce hd
  refine ⟨hsame, hout.imp (fun h => ⟨?_, h.2⟩) fun h => ⟨⟨_, rfl, h.1⟩, h.2⟩⟩
  rw [Exec.exec_attempt, h.1]

theorem OneFault.bind_attempt {x : Except Status α} {f : Except Status α → Io β} {r : Except Status β}
    (hm : OneFault limit m d x d' E) (hf : OneFault limit (f x) d' r d'' F)
    (hhit : ∀ y t, E y t → ∃ r' t', Does limit (f y) t r' t' ∧ F r' t') :
    OneFault limit (m.attempt >>= f) d r d'' F := by
  refine hm.attempt.bind hf ?_ ?_
  · rintro e t ⟨y, hy, -⟩
    cases hy
  · rintro b t ⟨y, hy, hE⟩
    obtain rfl := Except.ok.inj hy
    exact hhit b t hE

theorem oneFault_reads (h : Reads limit m) (d : Nat → Sector) :
    OneFault limit m d (value m d) d (Refused d) := by
  induction h with
  | pure a => exact .pure a
  | throw e => exact .throw e
  | read h => exact oneFault_read h d
  | @bind α β m f hm _ ihm ihf =>
    rw [value_bind hm]
    cases hv : value m d with
    | error e =>
      rw [hv] at ihm
      refine ihm.bind_error f ?_ fun b t h => (nomatch h.1)
      exact fun e t h => ⟨by rw [Except.error.inj h.1], h.2⟩
    | ok a =>
      rw [hv] at ihm
      exact ihm.bind_refused (ihf a) ⟨rfl, rfl⟩

theorem oneFault_value (h : Reads limit m) {r : Except Status α} (hr : value m d = r) :
    OneFault limit m d r d (Refused d) := hr ▸ oneFault_reads h d

end Rules

end Linux95.Storage
