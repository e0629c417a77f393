import Linux95.Storage.Values

/-! Computations that write. On a drive that answers every request a computation is a function of the
disk; on any drive, whatever it refuses, the answers to come are a tail of the answers there were. -/

namespace Linux95.Storage
open Base

def Does {α : Type} (limit : Nat) (m : Io α) (d : Nat → Sector) (r : Except Status α)
    (d' : Nat → Sector) : Prop :=
  ∀ dev : Device, dev.Ready limit → dev.sectors = d →
    (m.exec dev).1 = r ∧ (m.exec dev).2.sectors = d' ∧ Same dev (m.exec dev).2

section Does
variable {α β : Type} {limit : Nat} {m : Io α} {f : α → Io β} {d d' d'' : Nat → Sector}

theorem Does.pure (a : α) : Does limit (Pure.pure a : Io α) d (.ok a) d :=
  fun dev _ hd => ⟨rfl, hd, .refl dev⟩

theorem Does.throw (e : Status) : Does limit (MonadExcept.throw e : Io α) d (.error e) d :=
  fun dev _ hd => ⟨rfl, hd, .refl dev⟩

theorem Does.of_reads (h : Reads limit m) : Does limit m d (value m d) d := by
  rintro dev hready rfl
  obtain ⟨hsec, hsame, hout⟩ := h.outcome dev
  refine ⟨?_, hsec, hsame⟩
  rcases hout with hout | ⟨-, hnot⟩
  · exact hout
  · exact absurd hready hnot

theorem Does.of_value (h : Reads limit m) {r : Except Status α} (hr : value m d = r) :
    Does limit m d r d := hr ▸ Does.of_reads h

theorem Does.write (region : Region) {lba : Nat} (h : lba < limit) (s : Sector) :
    Does limit (writeSector region lba s) d (.ok ()) (Function.update d lba s) := by
  rintro dev hready rfl
  obtain ⟨hok, herr⟩ := wp_iff.mp (writeSector_wp dev region lba s)
  cases hr : ((writeSector region lba s).exec dev).1 with
  | ok u =>
    obtain ⟨hsec, -, hsame⟩ := hok u hr
    exact ⟨rfl, hsec, hsame⟩
  | error e =>
    obtain ⟨-, -, -, -, hnot⟩ := herr e hr
    exact absurd ⟨hready.1, h.trans_le hready.2⟩ hnot

theorem Does.bind {a : α} {r : Except Status β} (hm : Does limit m d (.ok a) d')
    (hf : Does limit (f a) d' r d'') : Does limit (m >>= f) d r d'' := by
  intro dev hready hd
  obtain ⟨hr, hsec, hsame⟩ := hm dev hready hd
  rw [Exec.exec_bind]
  cases hexec : m.exec dev with
  | mk result dev' =>
    rw [hexec] at hr hsec hsame
    obtain rfl : result = .ok a := hr
    obtain ⟨hr', hsec', hsame'⟩ := hf dev' (hsame.ready hready) hsec
    exact ⟨hr', hsec', hsame.trans hsame'⟩

theorem Does.bind_error {e : Status} (hm : Does limit m d (.error e) d') (f : α → Io β) :
    Does limit (m >>= f) d (.error e) d' := by
  intro dev hready hd
  obtain ⟨hr, hsec, hsame⟩ := hm dev hready hd
  rw [Exec.exec_bind]
  cases hexec : m.exec dev with
  | mk result dev' =>
    rw [hexec] at hr hsec hsame
    obtain rfl : result = .error e := hr
    exact ⟨rfl, hsec, hsame⟩

theorem Does.attempt {r : Except Status α} (hm : Does limit m d r d') :
    Does limit m.attempt d (.ok r) d' := by
  intro dev hready hd
  obtain ⟨hr, hsec, hsame⟩ := hm dev hready hd
  exact ⟨by rw [Exec.exec_attempt, hr], hsec, hsame⟩

theorem Does.exec {r : Except Status α} (h : Does limit m d r d') {dev : Device}
    (hready : dev.Ready limit) (hd : dev.sectors = d) :
    (m.exec dev).1 = r ∧ (m.exec dev).2.sectors = d' :=
  ⟨(h dev hready hd).1, (h dev hready hd).2.1⟩

theorem Does.wp_ready {a : α} (h : Does limit m d (.ok a) d') {dev : Device} (hd : dev.sectors = d) :
    wp m (fun _ dev' => dev.Ready limit → dev'.Ready limit) (fun _ _ => ¬ dev.Ready limit) dev := by
  -- only a drive that is not ready makes such a computation fail
  refine wp_iff.mpr ⟨fun b _ hready => ?_, fun e he hready => ?_⟩
  · exact (h dev hready hd).2.2.ready hready
  · rw [(h dev hready hd).1] at he
    cases he

end Does

end Linux95.Storage
