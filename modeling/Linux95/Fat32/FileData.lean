import Linux95.Fat32.Lookalikes
import Linux95.Fat32.Slices

/-! The data loops of `write_file` and `copy_file`: the bytes of the new chain, and no other sector. -/

namespace Linux95.Fat32
open Base Storage Write

section Links
variable {g : BpbGeometry} {n : Nat} (hg : g.Sound n) {d : Disk} {c : Nat} {r : Option Nat}
include hg

theorem value_chainNext_link (h : link g d c = some r) : value (chainNext g c false) d = .ok r := by
  rw [value_chainNext hg, h]
  rfl

theorem value_chainNext_agreed (h : link g d c = some r) (hagree : Agree g d c) :
    value (chainNext g c true) d = .ok r := by
  rw [value_chainNext_checked hg, if_neg fun hnot => hnot.2 hagree, h]
  rfl

end Links

section Bytes
variable {g : BpbGeometry} {n : Nat} (hg : g.Sound n) {d d' : Disk} {c : Nat} {l : List Nat} {f : Nat → UInt8}

theorem byte_dataSector {data : Bytes} {consumed take j : Nat} (hj : j < take) (hlt : j < 512) :
    (dataSector data consumed take).byte j = data (consumed + j) := by
  unfold Sector.byte dataSector
  rw [dif_pos hlt]
  exact if_pos hj

theorem clusterByte_congr {o : Nat} (h : d' (g.dataLba c (o / 512)) = d (g.dataLba c (o / 512))) :
    clusterByte g d' c o = clusterByte g d c o := by
  unfold clusterByte
  rw [h]

def SectorsHold (g : BpbGeometry) (d d' : Disk) (c i size : Nat) (f : Nat → UInt8) : Prop :=
  (∀ lba, (∀ j, i ≤ j → j < g.sectorsPerCluster → lba ≠ g.dataLba c j) → d' lba = d lba) ∧
    ∀ o, o < size → clusterByte g d' c (i * 512 + o) = f o

theorem sectorsHold_cons {i take size : Nat} {s : Sector} {d₁ : Disk} (hi : i < g.sectorsPerCluster)
    (hd₁ : d₁ = Function.update d (g.dataLba c i) s) (htake : take ≤ 512) (hs : ∀ o, o < take → s.byte o = f o)
    (hlast : take < 512 → size = 0) (hrest : SectorsHold g d₁ d' c (i + 1) size fun o => f (take + o)) :
    SectorsHold g d d' c i (take + size) f := by
  obtain ⟨hsame, hbytes⟩ := hrest
  constructor
  · intro lba hout
    rw [hsame lba fun j hj => hout j (by omega), hd₁, Function.update_of_ne (hout i (le_refl i) hi)]
  · intro o ho
    by_cases hfirst : o < take
    · have hsector : d' (g.dataLba c i) = s := by
        rw [hsame, hd₁, Function.update_self]
        intro j hj _ heq
        unfold BpbGeometry.dataLba at heq
        omega
      unfold clusterByte
      rw [show (i * 512 + o) / 512 = i by omega, show (i * 512 + o) % 512 = o by omega, hsector]
      exact hs o hfirst
    · have hfull : take = 512 := by
        by_contra hne
        have hzero := hlast (by omega)
        omega
      have hrest := hbytes (o - take) (by omega)
      rw [show i * 512 + o = (i + 1) * 512 + (o - take) by omega, hrest]
      exact congrArg f (by omega)

include hg

theorem chainBytes_cons {size m : Nat} {d₁ : Disk} (hm : m = min size g.clusterBytes)
    (hfirst : ∀ o, o < m → clusterByte g d₁ c o = f o) (hkeep : ∀ i, i < g.sectorsPerCluster → d' (g.dataLba c i) = d₁ (g.dataLba c i))
    (hrest : ∀ j, j < size - m → (chainBytes g d' l)[j]? = some (f (m + j))) {j : Nat} (hj : j < size) :
    (chainBytes g d' (c :: l))[j]? = some (f j) := by
  have hpos := clusterBytes_pos hg
  have hwidth : g.clusterBytes = g.sectorsPerCluster * 512 := rfl
  rw [chainBytes_getElem? hg]
  by_cases hin : j < g.clusterBytes
  · rw [Nat.div_eq_of_lt hin, Nat.mod_eq_of_lt hin, List.getElem?_cons_zero, Option.map_some, ← hfirst j (by omega)]
    rw [clusterByte_congr (hkeep (j / 512) (by omega))]
  · have hshift : j = g.clusterBytes + (j - g.clusterBytes) := by omega
    have htail := hrest (j - m) (by omega)
    rw [chainBytes_getElem? hg, show j - m = j - g.clusterBytes by omega] at htail
    rw [hshift, Nat.add_comm, Nat.add_div_right _ hpos, Nat.add_mod_right, List.getElem?_cons_succ, htail]
    exact congrArg (fun k => some (f k)) (by omega)

theorem does_writeSectors (data : Bytes) (hc : validCluster g c = true) : ∀ k i consumed remaining (d : Disk),
    i + k = g.sectorsPerCluster →
    ∃ d', Does g.totalSectors (writeSectors g data c k i consumed remaining) d
        (.ok (consumed + min remaining (k * 512), remaining - min remaining (k * 512))) d' ∧
      SectorsHold g d d' c i (min remaining (k * 512)) fun o => data (consumed + o)
  | 0, i, consumed, remaining, d, _ => by
    rw [Nat.zero_mul, Nat.min_zero, Nat.add_zero, Nat.sub_zero]
    exact ⟨d, .pure _, fun _ _ => rfl, fun _ ho => absurd ho (Nat.not_lt_zero _)⟩
  | k + 1, i, consumed, remaining, d, hik => by
    have hi : i < g.sectorsPerCluster := by omega
    by_cases hzero : remaining = 0
    · subst hzero
      rw [Nat.zero_min, Nat.add_zero]
      refine ⟨d, ?_, fun _ _ => rfl, fun _ ho => absurd ho (Nat.not_lt_zero _)⟩
      unfold writeSectors
      rw [if_pos rfl]
      exact .pure _
    · obtain ⟨take, htake⟩ : ∃ take, take = if remaining < 512 then remaining else 512 := ⟨_, rfl⟩
      have htake' : take = min remaining 512 := by
        rw [htake]
        split_ifs <;> omega
      obtain ⟨d', hdoes, hholds⟩ := does_writeSectors data hc k (i + 1) (consumed + take) (remaining - take)
        (Function.update d (g.dataLba c i) (dataSector data consumed take)) (by omega)
      refine ⟨d', ?_, ?_⟩
      · unfold writeSectors
        rw [if_neg hzero, directoryLba_eq hg hc hi]
        dsimp only
        rw [← htake]
        refine .bind (.write .data (dataLba_bounds hg hc hi).2.1 _) ?_
        rw [show consumed + min remaining ((k + 1) * 512) =
            consumed + take + min (remaining - take) (k * 512) by omega,
          show remaining - min remaining ((k + 1) * 512) = remaining - take - min (remaining - take) (k * 512) by omega]
        exact hdoes
      · rw [show min remaining ((k + 1) * 512) = take + min (remaining - take) (k * 512) by omega]
        refine sectorsHold_cons hi rfl (by omega) (fun o ho => byte_dataSector ho (by omega)) (by omega) ?_
        exact ⟨hholds.1, fun o ho => (hholds.2 o ho).trans (congrArg data (Nat.add_assoc _ _ _))⟩

omit hg in
theorem SectorsHold.onlyData {i size : Nat} (h : SectorsHold g d d' c i size f) (hc : c ∈ l) : OnlyData g l d d' :=
  fun _ hout => h.1 _ fun j _ hj => hout c hc j hj

theorem does_writeClusters (data : Bytes) : ∀ (l : List Nat) (c consumed remaining : Nat) (d : Disk), Chain g d c l →
    remaining ≤ l.length * g.clusterBytes →
    ∃ d', Does g.totalSectors (writeClusters g data l.length c consumed remaining) d (.ok ()) d' ∧ OnlyData g l d d' ∧
      ∀ j, j < remaining → (chainBytes g d' l)[j]? = some (data (consumed + j)) := by
  intro l
  induction l with
  | nil =>
    intro c consumed remaining d hl
    exact absurd hl.head_mem List.not_mem_nil
  | cons x l ih =>
    intro c consumed remaining d hl hfits
    have hvalid := hl.valid
    have hnodup := hl.nodup
    obtain rfl : c = x := by cases hl <;> rfl
    have hwidth : g.sectorsPerCluster * 512 = g.clusterBytes := rfl
    obtain ⟨d₁, hwrite, hholds⟩ := does_writeSectors hg data (hvalid c List.mem_cons_self) g.sectorsPerCluster 0
      consumed remaining d (Nat.zero_add _)
    rw [hwidth] at hwrite hholds
    have honly : OnlyData g (c :: l) d d₁ := hholds.onlyData List.mem_cons_self
    have hbytes : ∀ o, o < min remaining g.clusterBytes → clusterByte g d₁ c o = data (consumed + o) := by
      intro o ho
      have h := hholds.2 o ho
      rw [Nat.zero_mul, Nat.zero_add] at h
      exact h
    cases hl with
    | last hlink =>
      have hlast : remaining ≤ g.clusterBytes := by
        rw [List.length_singleton, Nat.one_mul] at hfits
        exact hfits
      refine ⟨d₁, ?_, honly, fun j hj => ?_⟩
      · unfold writeClusters
        refine .bind hwrite ?_
        dsimp only
        rw [if_pos rfl, writeClusters, if_neg (by omega)]
        exact .pure _
      · refine chainBytes_cons hg rfl hbytes (fun _ _ => rfl) (fun j hj => ?_) hj
        omega
    | @next _ y _ hlink hrest =>
      have hrest' : Chain g d₁ y l := hrest.congr fun z _ => honly.link hg hvalid z
      have hlength : l.length ≠ 0 := fun h => by
        rw [List.length_eq_zero_iff.mp h] at hrest
        exact absurd hrest.head_mem List.not_mem_nil
      obtain ⟨d', hdoes, honly', hbytes'⟩ := ih y (consumed + min remaining g.clusterBytes)
        (remaining - min remaining g.clusterBytes) d₁ hrest' (by
          rw [List.length_cons, Nat.succ_mul] at hfits
          omega)
      refine ⟨d', ?_, ?_, fun j hj => ?_⟩
      · show Does g.totalSectors (writeClusters g data (l.length + 1) c consumed remaining) d (.ok ()) d'
        unfold writeClusters
        refine .bind hwrite ?_
        dsimp only
        rw [if_neg hlength]
        have hnext : value (chainNext g c false) d₁ = .ok (some y) :=
          value_chainNext_link hg ((honly.link hg hvalid c).trans hlink)
        exact .bind (.of_value (reads_chainNext c false) hnext) hdoes
      · exact honly.trans fun lba hout => honly' lba fun z hz => hout z (List.mem_cons_of_mem c hz)
      · refine chainBytes_cons hg rfl hbytes (fun i hi => ?_) (fun j hj => ?_) hj
        · exact honly'.other (fun z hz => hvalid z (List.mem_cons_of_mem c hz)) (hvalid c List.mem_cons_self) hi
            (List.nodup_cons.mp hnodup).1
        · rw [hbytes' j hj, Nat.add_assoc]

theorem does_copySectors {source target : Nat} (hs : validCluster g source = true) (ht : validCluster g target = true)
    (hne : source ≠ target) : ∀ k i remaining (d : Disk), i + k = g.sectorsPerCluster →
    ∃ d', Does g.totalSectors (copySectors g source target k i remaining) d (.ok (remaining - min remaining (k * 512))) d' ∧
      SectorsHold g d d' target i (min remaining (k * 512)) fun o => clusterByte g d source (i * 512 + o)
  | 0, i, remaining, d, _ => by
    rw [Nat.zero_mul, Nat.min_zero, Nat.sub_zero]
    exact ⟨d, .pure _, fun _ _ => rfl, fun _ ho => absurd ho (Nat.not_lt_zero _)⟩
  | k + 1, i, remaining, d, hik => by
    have hi : i < g.sectorsPerCluster := by omega
    by_cases hzero : remaining = 0
    · subst hzero
      rw [Nat.zero_min]
      refine ⟨d, ?_, fun _ _ => rfl, fun _ ho => absurd ho (Nat.not_lt_zero _)⟩
      unfold copySectors
      rw [if_pos rfl]
      exact .pure _
    · obtain ⟨take, htake⟩ : ∃ take, take = if remaining < 512 then remaining else 512 := ⟨_, rfl⟩
      have htake' : take = min remaining 512 := by
        rw [htake]
        split_ifs <;> omega
      have hsource : ∀ j, j < g.sectorsPerCluster → ∀ s : Sector,
          Function.update d (g.dataLba target i) s (g.dataLba source j) = d (g.dataLba source j) := by
        intro j hj s
        refine Function.update_of_ne (fun heq => hne ?_) _ _
        exact (dataLba_inj hs ht hj hi heq).1
      obtain ⟨d', hdoes, hholds⟩ := does_copySectors hs ht hne k (i + 1) (remaining - take)
        (Function.update d (g.dataLba target i) (dataSector (d (g.dataLba source i)).byte 0 take)) (by omega)
      refine ⟨d', ?_, ?_⟩
      · unfold copySectors
        rw [if_neg hzero, directoryLba_eq hg hs hi, directoryLba_eq hg ht hi]
        dsimp only
        rw [← htake]
        refine .bind (.of_value (.read (dataLba_bounds hg hs hi).2.1) rfl) ?_
        refine .bind (.write .data (dataLba_bounds hg ht hi).2.1 _) ?_
        rw [show remaining - min remaining ((k + 1) * 512) = remaining - take - min (remaining - take) (k * 512) by omega]
        exact hdoes
      · rw [show min remaining ((k + 1) * 512) = take + min (remaining - take) (k * 512) by omega]
        refine sectorsHold_cons hi rfl (by omega) (fun o ho => ?_) (by omega) ⟨hholds.1, fun o ho => ?_⟩
        · rw [byte_dataSector ho (by omega), Nat.zero_add]
          unfold clusterByte
          rw [show (i * 512 + o) / 512 = i by omega, show (i * 512 + o) % 512 = o by omega]
        · have htaken : take = 512 := by omega
          refine (hholds.2 o ho).trans ?_
          dsimp only
          rw [show (i + 1) * 512 + o = i * 512 + (take + o) by omega]
          exact clusterByte_congr (hsource _ (by omega) _)

theorem does_copyClusters : ∀ (l l' : List Nat) (source target remaining : Nat) (d : Disk), Chain g d source l →
    Chain g d target l' → l.length = l'.length → List.Disjoint l l' → (∀ x, validCluster g x = true → Agree g d x) →
    remaining ≤ l.length * g.clusterBytes →
    ∃ d', Does g.totalSectors (copyClusters g l.length source target remaining) d (.ok ()) d' ∧ OnlyData g l' d d' ∧
      ∀ j, j < remaining → (chainBytes g d' l')[j]? = some ((chainBytes g d l).getD j 0) := by
  intro l
  induction l with
  | nil =>
    intro l' source target remaining d hl
    exact absurd hl.head_mem List.not_mem_nil
  | cons x l ih =>
    intro l' source target remaining d hl hl' hlength hdisjoint hagree hfits
    have hvalid := hl.valid
    have hvalid' := hl'.valid
    have hnodup' := hl'.nodup
    obtain rfl : source = x := by cases hl <;> rfl
    have hs := hvalid source List.mem_cons_self
    have ht := hvalid' target hl'.head_mem
    have hne : source ≠ target := fun heq => hdisjoint List.mem_cons_self (heq ▸ hl'.head_mem)
    have hwidth : g.sectorsPerCluster * 512 = g.clusterBytes := rfl
    obtain ⟨d₁, hcopy, hholds⟩ := does_copySectors hg hs ht hne g.sectorsPerCluster 0 remaining d (Nat.zero_add _)
    rw [hwidth] at hcopy hholds
    have honly : OnlyData g l' d d₁ := hholds.onlyData hl'.head_mem
    have hsame : ∀ z ∈ source :: l, ∀ i, i < g.sectorsPerCluster → d₁ (g.dataLba z i) = d (g.dataLba z i) :=
      fun z hz i hi => honly.other hvalid' (hvalid z hz) hi (hdisjoint hz)
    have hchain : ∀ j, j < g.clusterBytes → (chainBytes g d (source :: l))[j]? = some (clusterByte g d source j) := by
      intro j hj
      rw [chainBytes_getElem? hg, Nat.div_eq_of_lt hj, Nat.mod_eq_of_lt hj]
      rfl
    have hbytes : ∀ o, o < min remaining g.clusterBytes →
        clusterByte g d₁ target o = (chainBytes g d (source :: l)).getD o 0 := by
      intro o ho
      have h : clusterByte g d₁ target (0 * 512 + o) = clusterByte g d source (0 * 512 + o) := hholds.2 o ho
      rw [Nat.zero_mul, Nat.zero_add] at h
      rw [h, List.getD_eq_getElem?_getD, hchain o (by omega)]
      rfl
    have hagree₁ : ∀ x, validCluster g x = true → Agree g d₁ x := fun x hx => honly.agree hg hvalid' hx (hagree x hx)
    have hnext : ∀ {c : Nat} {r : Option Nat}, link g d c = some r → value (chainNext g c true) d₁ = .ok r := by
      intro c r hlink
      have hlink₁ : link g d₁ c = some r := by rw [honly.link hg hvalid', hlink]
      exact value_chainNext_agreed hg hlink₁ (hagree₁ c (link_valid hlink₁))
    cases hl with
    | last hlink =>
      obtain ⟨y, rfl⟩ : ∃ y, l' = [y] := List.length_eq_one_iff.mp hlength.symm
      obtain rfl : target = y := List.mem_singleton.mp hl'.head_mem
      have hlink' : link g d target = some none := by
        cases hl' with
        | last h => exact h
        | next _ h => exact absurd h.head_mem List.not_mem_nil
      have hlast : remaining ≤ g.clusterBytes := by
        rw [List.length_singleton, Nat.one_mul] at hfits
        exact hfits
      refine ⟨d₁, ?_, honly, fun j hj => ?_⟩
      · unfold copyClusters
        refine .bind hcopy (.bind (.of_value (reads_chainNext source true) (hnext hlink))
          (.bind (.of_value (reads_chainNext target true) (hnext hlink')) ?_))
        rw [if_neg (by simp), copyClusters, if_neg (by omega)]
        exact .pure _
      · refine chainBytes_cons hg rfl hbytes (fun _ _ => rfl) (fun j hj => ?_) hj
        omega
    | @next _ y _ hlink hrest =>
      cases hl' with
      | last hlink' =>
        rw [List.length_cons, List.length_singleton, Nat.succ_inj, List.length_eq_zero_iff] at hlength
        rw [hlength] at hrest
        exact absurd hrest.head_mem List.not_mem_nil
      | @next _ y' l' hlink' hrest' =>
        have hlength' : l.length = l'.length := Nat.succ.inj hlength
        have hpositive : l.length ≠ 0 := fun h => by
          rw [List.length_eq_zero_iff.mp h] at hrest
          exact absurd hrest.head_mem List.not_mem_nil
        have hlinks : ∀ z, link g d₁ z = link g d z := fun z => honly.link hg hvalid' z
        obtain ⟨d', hdoes, honly', hbytes'⟩ := ih l' y y' (remaining - min remaining g.clusterBytes) d₁
          (hrest.congr fun z _ => hlinks z) (hrest'.congr fun z _ => hlinks z) hlength'
          (fun z hz hz' => hdisjoint (List.mem_cons_of_mem source hz) (List.mem_cons_of_mem target hz')) hagree₁ (by
            rw [List.length_cons, Nat.succ_mul] at hfits
            omega)
        have hvalid₁ : ∀ z ∈ l', validCluster g z = true := fun z hz => hvalid' z (List.mem_cons_of_mem target hz)
        refine ⟨d', ?_, ?_, fun j hj => ?_⟩
        · show Does g.totalSectors (copyClusters g (l.length + 1) source target remaining) d (.ok ()) d'
          unfold copyClusters
          refine .bind hcopy (.bind (.of_value (reads_chainNext source true) (hnext hlink))
            (.bind (.of_value (reads_chainNext target true) (hnext hlink')) ?_))
          rw [if_neg (by simp [hpositive])]
          exact hdoes
        · exact honly.trans fun lba hout => honly' lba fun z hz => hout z (List.mem_cons_of_mem target hz)
        · refine chainBytes_cons hg rfl hbytes (fun i hi => ?_) (fun j hj => ?_) hj
          · exact honly'.other hvalid₁ ht hi (List.nodup_cons.mp hnodup').1
          · have hrests : chainBytes g d₁ l = chainBytes g d l := by
              refine List.flatMap_congr fun z hz => List.flatMap_congr fun i hi => ?_
              rw [hsame z (List.mem_cons_of_mem source hz) i (List.mem_range.mp hi)]
            have hpos := clusterBytes_pos hg
            rw [hbytes' j hj, hrests, show min remaining g.clusterBytes = g.clusterBytes by omega]
            rw [List.getD_eq_getElem?_getD, List.getD_eq_getElem?_getD, chainBytes_getElem? hg, chainBytes_getElem? hg,
              Nat.add_comm, Nat.add_div_right _ hpos, Nat.add_mod_right, List.getElem?_cons_succ]

end Bytes

end Linux95.Fat32
