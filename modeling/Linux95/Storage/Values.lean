import Linux95.Storage.Device

/-! Computations that only read: they leave the disk alone, and what they return is a function of
the disk unless the drive refuses a request. -/

namespace Linux95.Storage
open Base

def perfect (disk : Nat → Sector) : Device := ⟨disk, 0, true, fun _ => .none, []⟩

def Device.Ready (dev : Device) (limit : Nat) : Prop := dev.Reliable ∧ limit ≤ dev.sectorCount

theorem Same.ready {dev dev' : Device} {limit : Nat} (h : Same dev dev') (hr : dev.Ready limit) :
    dev'.Ready limit :=
  ⟨h.reliable hr.1, h.sectorCount ▸ hr.2⟩

inductive Reads (limit : Nat) : {α : Type} → Io α → Prop
  | pure {α : Type} (a : α) : Reads limit (Pure.pure a : Io α)
  | throw {α : Type} (e : Status) : Reads limit (MonadExcept.throw e : Io α)
  | read {lba : Nat} (h : lba < limit) : Reads limit (readSector lba)
  | bind {α β : Type} {m : Io α} {f : α → Io β} (hm : Reads limit m) (hf : ∀ a, Reads limit (f a)) :
      Reads limit (m >>= f)

section Values
variable {α β : Type} {limit : Nat} {m : Io α} {f : α → Io β}

def value (m : Io α) (disk : Nat → Sector) : Except Status α := (m.exec (perfect disk)).1

@[simp] theorem value_pure (a : α) (disk : Nat → Sector) : value (pure a : Io α) disk = .ok a := rfl

@[simp] theorem value_throw (e : Status) (disk : Nat → Sector) :
    value (throw e : Io α) disk = .error e := rfl

@[simp] theorem value_readSector (lba : Nat) (disk : Nat → Sector) :
    value (readSector lba) disk = .ok (disk lba) := rfl

theorem value_ite {c : Prop} [Decidable c] {m m' : Io α} (disk : Nat → Sector) :
    value (if c then m else m') disk = if c then value m disk else value m' disk := by
  split <;> rfl

theorem reads_ite {c : Prop} [Decidable c] {m m' : Io α} (hm : c → Reads limit m)
    (hm' : ¬c → Reads limit m') : Reads limit (if c then m else m') := by
  split
  · exact hm ‹_›
  · exact hm' ‹_›

theorem Reads.still (h : Reads limit m) (disk : Nat → Sector) :
    (m.exec (perfect disk)).2 = perfect disk := by
  induction h with
  | pure a => rfl
  | throw e => rfl
  | read h => rfl
  | @bind α β m f _ _ ihm ihf =>
    rw [Exec.exec_bind]
    cases hr : m.exec (perfect disk) with
    | mk r dev =>
      rw [hr] at ihm
      cases r with
      | ok a =>
        obtain rfl : dev = perfect disk := ihm
        exact ihf a
      | error e => exact ihm

theorem value_bind (h : Reads limit m) (f : α → Io β) (disk : Nat → Sector) :
    value (m >>= f) disk = value m disk >>= fun a => value (f a) disk := by
  have hs := h.still disk
  unfold value
  rw [Exec.exec_bind]
  cases hr : m.exec (perfect disk) with
  | mk r dev =>
    rw [hr] at hs
    cases r with
    | ok a =>
      obtain rfl : dev = perfect disk := hs
      rfl
    | error e => rfl

theorem value_bind_ok (h : Reads limit m) {a : α} {disk : Nat → Sector}
    (hv : value m disk = .ok a) (f : α → Io β) : value (m >>= f) disk = value (f a) disk := by
  rw [value_bind h, hv]
  rfl

theorem value_bind_error (h : Reads limit m) {e : Status} {disk : Nat → Sector}
    (hv : value m disk = .error e) (f : α → Io β) : value (m >>= f) disk = .error e := by
  rw [value_bind h, hv]
  rfl

/-- The disk is left alone, and the outcome is the value of the disk unless a request is refused,
which a ready drive never does. -/
theorem Reads.outcome (h : Reads limit m) (dev : Device) :
    (m.exec dev).2.sectors = dev.sectors ∧ Same dev (m.exec dev).2 ∧
      ((m.exec dev).1 = value m dev.sectors ∨
        (m.exec dev).1 = .error .ioError ∧ ¬dev.Ready limit) := by
  induction h generalizing dev with
  | pure a => exact ⟨rfl, .refl dev, .inl rfl⟩
  | throw e => exact ⟨rfl, .refl dev, .inl rfl⟩
  | @read lba hlba =>
    obtain ⟨hok, herr⟩ := wp_iff.mp (readSector_wp dev lba)
    cases hr : ((readSector lba).exec dev).1 with
    | ok s =>
      obtain ⟨rfl, hsec, -, hsame⟩ := hok s hr
      exact ⟨hsec, hsame, .inl rfl⟩
    | error e =>
      obtain ⟨rfl, hsec, -, hsame, hnot⟩ := herr e hr
      exact ⟨hsec, hsame, .inr ⟨rfl, fun hready => hnot ⟨hready.1, hlba.trans_le hready.2⟩⟩⟩
  | @bind α β m f hm _ ihm ihf =>
    obtain ⟨hsec, hsame, hout⟩ := ihm dev
    rw [value_bind hm, Exec.exec_bind]
    cases hr : m.exec dev with
    | mk r dev' =>
      rw [hr] at hsec hsame hout
      cases r with
      | error e =>
        refine ⟨hsec, hsame, ?_⟩
        rcases hout with hv | ⟨he, hnot⟩
        · rw [← show _ = value m dev.sectors from hv]
          exact .inl rfl
        · exact .inr ⟨by rw [Except.error.inj he], hnot⟩
      | ok a =>
        obtain ⟨hsec', hsame', hout'⟩ := ihf a dev'
        refine ⟨hsec'.trans hsec, hsame.trans hsame', ?_⟩
        rcases hout with hv | ⟨he, -⟩
        · rw [← show _ = value m dev.sectors from hv, ← show _ = dev.sectors from hsec]
          exact hout'.imp id fun hnot => ⟨hnot.1, fun hready => hnot.2 (hsame.ready hready)⟩
        · exact nomatch he

theorem Reads.wp (h : Reads limit m) (dev : Device) :
    wp m (fun a dev' => value m dev.sectors = .ok a ∧ dev'.sectors = dev.sectors ∧ Same dev dev')
      (fun e dev' => dev'.sectors = dev.sectors ∧ Same dev dev' ∧
        (value m dev.sectors = .error e ∨ e = .ioError ∧ ¬dev.Ready limit)) dev := by
  obtain ⟨hsec, hsame, hout⟩ := h.outcome dev
  refine wp_iff.mpr ⟨fun a ha => ⟨?_, hsec, hsame⟩, fun e he => ⟨hsec, hsame, ?_⟩⟩
  · rcases hout with hv | ⟨he, -⟩
    · rw [← hv, ha]
    · rw [ha] at he
      exact nomatch he
  · rcases hout with hv | ⟨he', hnot⟩
    · rw [← hv, he]
      exact .inl rfl
    · rw [he] at he'
      exact .inr ⟨Except.error.inj he', hnot⟩

theorem Reads.exec_ok (h : Reads limit m) {dev : Device} {a : α} (ha : (m.exec dev).1 = .ok a) :
    value m dev.sectors = .ok a :=
  ((wp_iff.mp (h.wp dev)).1 a ha).1

theorem Reads.keeps {I : Device → Prop} (hread : ∀ lba, Keeps I (readSector lba))
    (h : Reads limit m) : Keeps I m := by
  induction h with
  | pure a => exact keeps_pure a
  | throw e => exact keeps_throw e
  | read _ => exact hread _
  | bind _ _ ihm ihf => exact keeps_bind ihm ihf

end Values

end Linux95.Storage
