import Xtc.FatFs.Read

/-!
# Seek — `f_lseek`

The clusters in front of the position are skipped one after the other, from the start of the file.
-/

namespace Xtc

namespace FatFs

open Bits (Byte)
open Ffwrap (Fresult)

variable {δ : Type} {drive : Drive δ} {img : Image} {up : δ → Prop} {healthy : Prop}
  {vol : Fatfs} {s : State δ} {e : Extent} {fp : Fil} {pos org : Nat}

theorem Extent.OnVolume.at_cluster (h : e.OnVolume vol img org) (hwf : vol.WellFormed) {j : Nat}
    (hj : j % vol.sectsClust = 0) (hlt : (j + vol.sectsClust) * 512 < e.size) :
    e.clusterAt vol (j + vol.sectsClust) = vol.link img (e.clusterAt vol j) ∧
      (j + vol.sectsClust) % vol.sectsClust = 0 := by
  have hsc := hwf.sectsClust.1
  have hin : j % vol.sectsClust + (vol.sectsClust - 1) < vol.sectsClust := by omega
  have hsum : j + vol.sectsClust = j + (vol.sectsClust - 1) + 1 := by omega
  obtain ⟨hnext, hzero⟩ := h.at_next hwf (j := j + (vol.sectsClust - 1)) (hsum ▸ hlt)
    (by rw [(div_mod_add hin).2]; omega)
  rw [hsum, hnext, (Extent.at_add hin).1]
  exact ⟨rfl, hzero⟩

/-- What the rounds keep: cluster `clust` of the file starts with its sector `j`. -/
structure Skipped (vol : Fatfs) (e : Extent) (fp : Fil) (target : Nat) (j : Nat)
    (p : Fil × Nat × Nat) : Prop where
  fil : p.1 = { fp with fptr := j * 512, currClust := p.1.currClust }
  clust : p.2.1 = e.clusterAt vol j
  aligned : j % vol.sectsClust = 0
  ofs : j * 512 + p.2.2 = target
  pos : 0 < p.2.2

/-- The cluster that is looked for, and the offset in it; or the drive has failed. -/
def Found (vol : Fatfs) (e : Extent) (fp : Fil) (healthy : Prop) (target : Nat)
    (r : Fil × Option (Nat × Nat)) : Prop :=
  (∃ j ofs, Skipped vol e fp target j (r.1, e.clusterAt vol j, ofs) ∧
    r.1.currClust = e.clusterAt vol j ∧ ofs ≤ vol.sectsClust * 512 ∧
    r.2 = some (e.clusterAt vol j, ofs)) ∨
  r.2 = none ∧ ¬ healthy ∧ r.1.fs = fp.fs ∧ r.1.id = fp.id

theorem skipRound_ensures (hdrive : drive.Holds img up healthy) (hwf : vol.WellFormed)
    (hm : Mounted img up vol s) (hfile : e.OnVolume vol img org) {target j : Nat}
    (htarget : target ≤ e.size) {p : Fil × Nat × Nat} (h : Skipped vol e fp target j p) :
    (skipRound drive (vol.sectsClust * 512) p).Ensures s fun x s' => Mounted img up vol s' ∧
      x.elim (fun p' => (∃ j', Skipped vol e fp target j' p') ∧ p'.2.2 < p.2.2)
        (Found vol e fp healthy target) := by
  obtain ⟨fil, clust, ofs⟩ := p
  obtain ⟨hfil, hclust, haligned, hofs, hpos⟩ := h
  simp only at hfil hclust hofs hpos
  have hsc := hwf.sectsClust
  have hsize := hfile.bound
  unfold skipRound
  simp only
  have hsum : vol.sectsClust * 512 < ofs →
      (j + vol.sectsClust) * 512 + (ofs - vol.sectsClust * 512) = target := by
    intro hlt
    rw [Nat.add_mul, Nat.add_assoc, Nat.add_sub_cancel' hlt.le, hofs]
  by_cases hhere : ofs ≤ vol.sectsClust * 512
  · rw [if_pos hhere, Comp.ensures_pure]
    refine ⟨hm, .inl ⟨j, ofs, ⟨?_, rfl, haligned, hofs, hpos⟩, hclust, hhere, by rw [hclust]⟩⟩
    rw [hfil]
  · rw [if_neg hhere]
    simp only [Comp.ensures_bind, ensures_fatfs]
    have hvalid : vol.Valid clust := hclust ▸ hfile.valid_clusterAt hwf (by omega)
    refine (getCluster_ensures hdrive hm hwf hvalid).imp ?_
    rintro c s' ⟨hm', hc | ⟨rfl, hbad⟩⟩
    · obtain ⟨hnext, hzero⟩ := hfile.at_cluster hwf haligned (by omega)
      have hmax : s'.fs.maxClust = vol.maxClust := by rw [hm'.fs]
      rw [hclust, ← hnext] at hc
      have hvalid' : vol.Valid c := hc ▸ hfile.valid_clusterAt hwf (by omega)
      have htwo := hvalid'.1
      have hlt := hvalid'.2
      have hrest : (ofs + (2 ^ 32 - vol.sectsClust * 512)) % 2 ^ 32 =
          ofs - vol.sectsClust * 512 := by
        omega
      rw [if_neg (by omega), if_neg (by omega), Comp.ensures_pure, hrest]
      refine ⟨hm', ⟨j + vol.sectsClust, ?_, hc, hzero, ?_, ?_⟩, ?_⟩
      · have hfptr : (j * 512 + vol.sectsClust * 512) % 2 ^ 32 = (j + vol.sectsClust) * 512 := by
          rw [← Nat.add_mul]
          exact Nat.mod_eq_of_lt (by omega)
        rw [hfil]
        simp only [hfptr]
      · exact hsum (by omega)
      · show 0 < ofs - vol.sectsClust * 512
        omega
      · show ofs - vol.sectsClust * 512 < ofs
        omega
    · rw [if_neg (by decide), if_pos (.inl rfl), Comp.ensures_pure]
      exact ⟨hm', .inr ⟨rfl, hbad, by rw [hfil], by rw [hfil]⟩⟩

theorem Extent.OnVolume.clust2sect_add (h : e.OnVolume vol img org) (hwf : vol.WellFormed)
    (hm : Mounted img up vol s) {j k : Nat} (haligned : j % vol.sectsClust = 0)
    (hk : k < vol.sectsClust) (hlt : (j + k) * 512 < e.size) :
    (clust2sect s.fs (e.clusterAt vol j) + k) % 2 ^ 32 = e.sectorAt vol (j + k) := by
  have hin : j % vol.sectsClust + k < vol.sectsClust := by omega
  have hsect := h.sectorAt_lt hwf hlt
  have hj : j * 512 < e.size := (Nat.mul_le_mul_right _ (Nat.le_add_right j k)).trans_lt hlt
  have hstart : e.sectorAt vol j = vol.start (e.clusterAt vol j) := by
    rw [Extent.sectorAt, haligned, Nat.add_zero]
  rw [(Extent.at_add hin).2] at hsect ⊢
  rw [hm.clust2sect hwf (h.valid_clusterAt hwf hj), ← hstart, Nat.mod_eq_of_lt hsect]

theorem seekTo_ensures (hdrive : drive.Holds img up healthy) (hwf : vol.WellFormed)
    (hm : Mounted img up vol s) (hat : fp.At vol img e pos) {target j ofs : Nat} {fil : Fil}
    (htarget : target ≤ e.size)
    (h : Skipped vol e { fp with sectClust := 1 } target j (fil, e.clusterAt vol j, ofs))
    (hclust : fil.currClust = e.clusterAt vol j) (hofs : ofs ≤ vol.sectsClust * 512) :
    (seekTo drive fil (e.clusterAt vol j) ofs).Ensures s fun r s' => Mounted img up vol s' ∧
      (r.1 = .ok ∧ r.2.At vol img e target ∨
        r.1 = .rwError ∧ ¬ healthy ∧ r.2.Broken vol) := by
  have hsc := hwf.sectsClust
  have hsize := hat.file.bound
  obtain ⟨hfil, -, haligned, hsum, hpos⟩ := h
  simp only at hfil hsum hpos
  -- the sector in front of the position
  obtain ⟨k, hk⟩ : ∃ k, k = (ofs - 1) / 512 := ⟨_, rfl⟩
  have hklt : k < vol.sectsClust := by omega
  have hlast : (target - 1) / 512 = j + k := by omega
  have hjk : (j + k) * 512 < e.size := by
    have hk512 : k * 512 < ofs :=
      hk ▸ (Nat.div_mul_le_self _ _).trans_lt (Nat.sub_lt hpos Nat.one_pos)
    rw [Nat.add_mul]
    exact (Nat.add_lt_add_left hk512 _).trans_le (hsum.le.trans htarget)
  have hcsect : (ofs + (2 ^ 32 - 1)) % 2 ^ 32 / 512 % 2 ^ 8 = k := by omega
  have hin : j % vol.sectsClust + k < vol.sectsClust := by omega
  have hsect := hat.file.clust2sect_add hwf hm haligned hklt hjk
  have hleft : (s.fs.sectsClust + (2 ^ 8 - k)) % 2 ^ 8 =
      vol.sectsClust - (target - 1) / 512 % vol.sectsClust := by
    rw [hlast, (div_mod_add hin).2, haligned, hm.fs]
    show (vol.sectsClust + (2 ^ 8 - k)) % 2 ^ 8 = _
    omega
  have hptr : (fil.fptr + ofs) % 2 ^ 32 = target := by
    rw [hfil]
    show (j * 512 + ofs) % 2 ^ 32 = target
    omega
  have hfs : fil.fs = true := by rw [hfil]; exact hat.fs
  have hid : fil.id = vol.id := by rw [hfil]; exact hat.id
  -- the object at its new place, whatever is in its buffer
  have hmoved : ∀ buffer : Sector,
      (target % 512 ≠ 0 → ∀ i < 512, buffer i = img (e.sectorAt vol (target / 512)) i) →
      { fil with
        currSect := e.sectorAt vol (j + k)
        buffer := buffer
        sectClust := (s.fs.sectsClust + (2 ^ 8 - k)) % 2 ^ 8
        fptr := (fil.fptr + ofs) % 2 ^ 32 }.At vol img e target := by
    intro buffer hbuffer
    rw [hleft, hptr]
    refine hat.moved (b := fil.currClust) ?_ (by omega) htarget (by rw [hlast]) ?_ rfl hbuffer
    · rw [hfil]
    · rw [hclust, hlast, (Extent.at_add hin).1]
  simp only [seekTo, Comp.ensures_bind, ensures_fatfs, hcsect, hsect]
  rw [and_511]
  by_cases hload : ofs % 512 = 0
  · rw [if_neg (not_not.mpr hload), Comp.ensures_pure]
    exact ⟨hm, .inl ⟨rfl, hmoved fil.buffer fun hne => absurd (by omega) hne⟩⟩
  · rw [if_pos hload]
    simp only [Comp.ensures_bind, ensures_below]
    refine (hdrive.read s.drive s.fs.drive _ 1 hm.up Nat.one_pos).imp ?_
    rintro ⟨res, data⟩ d' ⟨hup, hok, hfail⟩
    have hmounted := hm.below hup
    by_cases hres : res = .ok
    · have hdata : data = sectors img (e.sectorAt vol (j + k)) 1 := hok hres
      rw [if_neg (not_not.mpr hres), Comp.ensures_pure]
      refine ⟨hmounted, .inl ⟨rfl, hmoved _ fun _ i hi => ?_⟩⟩
      rw [hdata, overlay_sectors hi, show target / 512 = j + k by omega]
    · rw [if_pos hres, Comp.ensures_pure]
      exact ⟨hmounted, .inr ⟨rfl, (hfail hres).1, Fil.broken_or hfs hid rfl⟩⟩

/-- `f_lseek` moves to the offset, or to the end of the file if that is less; or the drive has
failed. -/
theorem fLseek_ensures (hdrive : drive.Holds img up healthy) (hwf : vol.WellFormed)
    (hm : Mounted img up vol s) (hat : fp.At vol img e pos) (ofs : Nat) :
    (fLseek drive fp ofs).Ensures s fun r s' => Mounted img up vol s' ∧
      (r.1 = .ok ∧ r.2.At vol img e (min ofs e.size) ∨
        r.1 = .rwError ∧ ¬ healthy ∧ r.2.Broken vol) := by
  have hcut : (if ofs > fp.fsize then fp.fsize else ofs) = min ofs e.size := by
    rw [hat.fsize]
    split_ifs <;> omega
  simp only [fLseek, Comp.ensures_bind]
  refine (validate_ensures hdrive hm hat.fs hat.id).imp ?_
  rintro res s' ⟨rfl, hm'⟩
  rw [if_neg (by decide), if_neg (not_not.mpr hat.good), hcut]
  by_cases hzero : min ofs e.size = 0
  · rw [if_neg (fun h => h.1 hzero), Comp.ensures_pure, hzero]
    exact ⟨hm', .inl ⟨rfl, hat.fs, hat.id, hat.good, hat.mode, hat.file, hat.fsize, rfl,
      Nat.zero_le _, fun _ => rfl, fun h => absurd h (by decide), fun h => absurd h (by decide),
      fun h => absurd h (by decide), fun h => absurd rfl h⟩⟩
  · have hfirst := hat.file.clusterAt_zero hwf (by omega)
    have hvalid : vol.Valid fp.orgClust := hfirst ▸ hat.file.valid_clusterAt hwf (by omega)
    have horg := hvalid.1
    have hcsize : s'.fs.sectsClust = vol.sectsClust := by rw [hm'.fs]
    rw [if_pos ⟨hzero, by omega⟩]
    simp only [Comp.ensures_bind, ensures_fatfs, hcsize]
    have hstart : Skipped vol e { fp with sectClust := 1 } (min ofs e.size) 0
        ({ fp with fptr := 0, sectClust := 1 }, fp.orgClust, min ofs e.size) :=
      ⟨rfl, hfirst.symm, Nat.zero_mod _, by simp, Nat.pos_of_ne_zero hzero⟩
    have hloop : (Comp.loop (skipRound drive (vol.sectsClust * 512))
        ({ fp with fptr := 0, sectClust := 1 }, fp.orgClust, min ofs e.size)).Ensures s'
        fun r s'' => Mounted img up vol s'' ∧
            Found vol e { fp with sectClust := 1 } healthy (min ofs e.size) r := by
      refine Comp.ensures_loop (fun p t => Mounted img up vol t ∧
        ∃ j, Skipped vol e { fp with sectClust := 1 } (min ofs e.size) j p) (fun p => p.2.2) ?_
        ⟨hm', 0, hstart⟩
      rintro p t ⟨hmt, j, hp⟩
      refine (skipRound_ensures hdrive hwf hmt hat.file (Nat.min_le_right _ _) hp).imp ?_
      rintro x t' ⟨hmt', hx⟩
      cases x with
      | inl p' => exact ⟨⟨hmt', hx.1⟩, hx.2⟩
      | inr r => exact ⟨hmt', hx⟩
    refine hloop.imp ?_
    rintro ⟨fil, found⟩ t ⟨hmt, ⟨j, rest, hskip, hclust, hle, hsome⟩ | ⟨hnone, hbad, hfs, hid⟩⟩
    · obtain rfl : found = some (e.clusterAt vol j, rest) := hsome
      exact seekTo_ensures hdrive hwf hmt hat (Nat.min_le_right _ _) hskip hclust hle
    · obtain rfl : found = none := hnone
      refine Comp.ensures_pure.mpr ⟨hmt, .inr ⟨rfl, hbad, ?_⟩⟩
      exact Fil.broken_or (hfs.trans hat.fs) (hid.trans hat.id) rfl

end FatFs

end Xtc
