import Xtc.FatFs.Table

/-!
# Read — the bytes of a file, and `f_read`

A file is a chain of clusters and a size.  What a file object keeps about its position says which
sector of the file comes next, and `f_read` gives the bytes of the file from there on, however they
are spread over sectors and clusters.
-/

namespace Xtc

namespace FatFs

open Bits (Byte)
open Ffwrap (Fresult File)

/-- A file on a volume: its clusters, in their order, and its size. -/
structure Extent where
  clusters : List Nat
  size : Nat

section Extent

variable (vol : Fatfs) (img : Image)

/-- The chain that starts at `org` is that of the file, and is long enough. -/
structure Extent.OnVolume (e : Extent) (org : Nat) : Prop where
  first : ∀ c ∈ e.clusters.head?, c = org
  valid : ∀ c ∈ e.clusters, vol.Valid c
  links : e.clusters.IsChain fun c c' => vol.link img c = c'
  size : e.size ≤ e.clusters.length * vol.sectsClust * 512
  bound : e.size < 2 ^ 32

/-- The cluster that sector `j` of the file is in, -/
def Extent.clusterAt (e : Extent) (j : Nat) : Nat := e.clusters.getD (j / vol.sectsClust) 0

/-- and the sector. -/
def Extent.sectorAt (e : Extent) (j : Nat) : Nat :=
  vol.start (e.clusterAt vol j) + j % vol.sectsClust

def Extent.byteAt (e : Extent) (i : Nat) : Byte := img (e.sectorAt vol (i / 512)) (i % 512)

/-- `n` bytes of the file from `pos` on. -/
def Extent.bytes (e : Extent) (pos n : Nat) : List Byte :=
  (List.range n).map fun i => e.byteAt vol img (pos + i)

end Extent

/-- The file object is at `pos`: of the sector in front of that it knows the number, the cluster and
how many sectors of the cluster are left, and inside a sector it has it in its buffer. -/
structure Fil.At (vol : Fatfs) (img : Image) (e : Extent) (fp : Fil) (pos : Nat) : Prop where
  fs : fp.fs = true
  id : fp.id = vol.id
  good : fp.flag &&& faError = 0
  mode : fp.flag &&& faRead ≠ 0
  file : e.OnVolume vol img fp.orgClust
  fsize : fp.fsize = e.size
  fptr : fp.fptr = pos
  bound : pos ≤ e.size
  first : pos = 0 → fp.sectClust = 1
  currSect : 0 < pos → fp.currSect = e.sectorAt vol ((pos - 1) / 512)
  currClust : 0 < pos → fp.currClust = e.clusterAt vol ((pos - 1) / 512)
  left : 0 < pos → fp.sectClust = vol.sectsClust - (pos - 1) / 512 % vol.sectsClust
  buffer : pos % 512 ≠ 0 → ∀ i < 512, fp.buffer i = img (e.sectorAt vol (pos / 512)) i

/-- An error has been met in the file, and nothing is read from it any more. -/
structure Fil.Broken (vol : Fatfs) (fp : Fil) : Prop where
  fs : fp.fs = true
  id : fp.id = vol.id
  flag : fp.flag &&& faError ≠ 0

theorem Fil.broken_or {vol : Fatfs} {fp : Fil} {x : Byte} (hfs : fp.fs = true)
    (hid : fp.id = vol.id) (hflag : fp.flag = x ||| faError) : fp.Broken vol := by
  have hor : ∀ x : Byte, (x ||| faError) &&& faError ≠ 0 := by decide
  exact ⟨hfs, hid, hflag ▸ hor x⟩

section Extents

variable {vol : Fatfs} {img : Image} {e : Extent} {org j n m pos : Nat}

theorem Extent.bytes_add : e.bytes vol img pos n ++ e.bytes vol img (pos + n) m =
    e.bytes vol img pos (n + m) := by
  simp only [bytes, List.range_add, List.map_append, List.map_map]
  congr 1
  apply List.map_congr_left
  intro i _
  simp [Nat.add_assoc]

@[simp] theorem Extent.length_bytes : (e.bytes vol img pos n).length = n := by simp [bytes]

theorem Extent.OnVolume.lt_length (h : e.OnVolume vol img org) (hwf : vol.WellFormed)
    (hj : j * 512 < e.size) : j / vol.sectsClust < e.clusters.length := by
  have hsize := h.size
  have hpos := hwf.sectsClust.1
  rw [Nat.div_lt_iff_lt_mul hpos]
  by_contra hge
  have hmul : e.clusters.length * vol.sectsClust * 512 ≤ j * 512 :=
    Nat.mul_le_mul_right _ (by omega)
  omega

theorem Extent.clusterAt_eq (hj : j / vol.sectsClust < e.clusters.length) :
    e.clusterAt vol j = e.clusters.get ⟨j / vol.sectsClust, hj⟩ := by
  rw [clusterAt, List.getD_eq_getElem?_getD, List.getElem?_eq_getElem hj]
  rfl

theorem Extent.OnVolume.valid_clusterAt (h : e.OnVolume vol img org) (hwf : vol.WellFormed)
    (hj : j * 512 < e.size) : vol.Valid (e.clusterAt vol j) := by
  have hlt := h.lt_length hwf hj
  rw [clusterAt_eq hlt]
  exact h.valid _ (List.getElem_mem hlt)

theorem Extent.OnVolume.sectorAt_lt (h : e.OnVolume vol img org) (hwf : vol.WellFormed)
    (hj : j * 512 < e.size) : e.sectorAt vol j < 2 ^ 32 := by
  have hend := hwf.start_add_le (h.valid_clusterAt hwf hj)
  have hmod := Nat.mod_lt j hwf.sectsClust.1
  unfold sectorAt
  omega

theorem Extent.OnVolume.clusterAt_zero (h : e.OnVolume vol img org) (hwf : vol.WellFormed)
    (hsize : 0 < e.size) : e.clusterAt vol 0 = org := by
  have hlt := h.lt_length hwf (j := 0) (by omega)
  apply h.first
  rw [clusterAt, Nat.zero_div] at *
  rw [List.head?_eq_getElem?, List.getD_eq_getElem?_getD, List.getElem?_eq_getElem hlt]
  rfl

theorem div_mod_add {sc k : Nat} (h : j % sc + k < sc) :
    (j + k) / sc = j / sc ∧ (j + k) % sc = j % sc + k := by
  have hsum : j + k = sc * (j / sc) + (j % sc + k) := by
    have := Nat.div_add_mod j sc
    omega
  rw [hsum, Nat.mul_add_div (by omega), Nat.mul_add_mod, Nat.div_eq_of_lt h, Nat.mod_eq_of_lt h]
  exact ⟨rfl, rfl⟩

theorem Extent.at_add {k : Nat} (h : j % vol.sectsClust + k < vol.sectsClust) :
    e.clusterAt vol (j + k) = e.clusterAt vol j ∧
      e.sectorAt vol (j + k) = e.sectorAt vol j + k := by
  obtain ⟨hdiv, hmod⟩ := div_mod_add h
  have hclust : e.clusterAt vol (j + k) = e.clusterAt vol j := by rw [clusterAt, clusterAt, hdiv]
  refine ⟨hclust, ?_⟩
  rw [sectorAt, sectorAt, hclust, hmod, Nat.add_assoc]

/-- The sector that starts the next cluster. -/
theorem Extent.OnVolume.at_next (h : e.OnVolume vol img org) (hwf : vol.WellFormed)
    (hj : (j + 1) * 512 < e.size) (hlast : j % vol.sectsClust + 1 = vol.sectsClust) :
    e.clusterAt vol (j + 1) = vol.link img (e.clusterAt vol j) ∧ (j + 1) % vol.sectsClust = 0 := by
  have hsum : j + 1 = vol.sectsClust * (j / vol.sectsClust + 1) := by
    have := Nat.div_add_mod j vol.sectsClust
    rw [Nat.mul_add, Nat.mul_one]
    omega
  have hdiv : (j + 1) / vol.sectsClust = j / vol.sectsClust + 1 := by
    rw [hsum, Nat.mul_div_cancel_left _ hwf.sectsClust.1]
  have hlt := h.lt_length hwf hj
  have hlt' : j / vol.sectsClust + 1 < e.clusters.length := hdiv ▸ hlt
  refine ⟨?_, by rw [hsum, Nat.mul_mod_right]⟩
  have hlink := List.isChain_iff_getElem.mp h.links (j / vol.sectsClust) hlt'
  rw [clusterAt_eq hlt, clusterAt_eq (j := j) (by omega)]
  simp only [List.get_eq_getElem, hdiv]
  exact hlink.symm

theorem Extent.sectors_eq {cc : Nat} (h : j % vol.sectsClust + cc ≤ vol.sectsClust) :
    sectors img (e.sectorAt vol j) cc = e.bytes vol img (j * 512) (cc * 512) := by
  rw [sectors, bytes]
  apply List.map_congr_left
  intro i hi
  rw [List.mem_range] at hi
  have hin : j % vol.sectsClust + i / 512 < vol.sectsClust := by omega
  rw [byteAt, show (j * 512 + i) / 512 = j + i / 512 by omega,
    show (j * 512 + i) % 512 = i % 512 by omega, (at_add hin).2]

theorem Extent.slice_eq {buf : Sector}
    (hbuf : ∀ i < 512, buf i = img (e.sectorAt vol (pos / 512)) i)
    (h : pos % 512 + n ≤ 512) : slice buf (pos % 512) n = e.bytes vol img pos n := by
  rw [slice, bytes]
  apply List.map_congr_left
  intro i hi
  rw [List.mem_range] at hi
  rw [hbuf _ (by omega), byteAt, show (pos + i) / 512 = pos / 512 by omega,
    show (pos + i) % 512 = pos % 512 + i by omega]

end Extents

/-! ## The next sector -/

section Sectors

variable {δ : Type} {drive : Drive δ} {img : Image} {up : δ → Prop} {healthy : Prop}
  {vol : Fatfs} {s : State δ} {e : Extent} {fp : Fil} {pos : Nat}

/-- The file object with sector `j` of the file before it. -/
def Fil.facing (vol : Fatfs) (e : Extent) (fp : Fil) (j : Nat) : Fil :=
  { fp with
    sectClust := vol.sectsClust - j % vol.sectsClust
    currClust := e.clusterAt vol j
    currSect := e.sectorAt vol j }

theorem Mounted.clust2sect (h : Mounted img up vol s) (hwf : vol.WellFormed) {c : Nat}
    (hc : vol.Valid c) : FatFs.clust2sect s.fs c = vol.start c := by
  rw [h.fs]
  exact hwf.clust2sect hc

theorem enter_ensures (hwf : vol.WellFormed) (h : Mounted img up vol s)
    (hfile : e.OnVolume vol img fp.orgClust) {c j : Nat} (hj : j * 512 < e.size)
    (hc : c = e.clusterAt vol j) (hmod : j % vol.sectsClust = 0) (fp : Fil) :
    ¬ (c < 2 ∨ c ≥ s.fs.maxClust) ∧ FatFs.clust2sect s.fs c = e.sectorAt vol j ∧
      { fp with currClust := c, sectClust := s.fs.sectsClust, currSect := e.sectorAt vol j } =
        fp.facing vol e j := by
  have hvalid : vol.Valid c := hc ▸ hfile.valid_clusterAt hwf hj
  have hmax : s.fs.maxClust = vol.maxClust := by rw [h.fs]
  have hsc : s.fs.sectsClust = vol.sectsClust := by rw [h.fs]
  refine ⟨?_, ?_, ?_⟩
  · have := hvalid.1
    have := hvalid.2
    omega
  · rw [h.clust2sect hwf hvalid, Extent.sectorAt, hmod, hc, Nat.add_zero]
  · rw [Fil.facing, hmod, hsc, hc, Nat.sub_zero]

theorem nextSector_ensures (hdrive : drive.Holds img up healthy) (hwf : vol.WellFormed)
    (h : Mounted img up vol s) (hat : fp.At vol img e pos) (hpos : pos % 512 = 0)
    (hlt : pos < e.size) :
    (nextSector drive fp).Ensures s fun r s' => Mounted img up vol s' ∧
      (r.2 = none → ¬ healthy ∧ ∃ n, r.1 = { fp with sectClust := n }) ∧
      ∀ sect, r.2 = some sect → sect = e.sectorAt vol (pos / 512) ∧
        { r.1 with currSect := sect } = fp.facing vol e (pos / 512) := by
  have hsc := hwf.sectsClust
  unfold nextSector
  simp only
  rcases Nat.eq_zero_or_pos pos with rfl | hpos'
  · rw [hat.first rfl, if_neg (by decide), if_pos hat.fptr]
    simp only [Comp.ensures_bind, Comp.ensures_pure, ensures_fatfs]
    obtain ⟨hok, hsect, hfacing⟩ := enter_ensures hwf h hat.file (j := 0) (by omega)
      (hat.file.clusterAt_zero hwf hlt).symm (Nat.zero_mod _) fp
    rw [if_neg hok, Comp.ensures_pure]
    refine ⟨h, fun hnone => absurd hnone (by simp), ?_⟩
    intro sect hsome
    obtain rfl := Option.some.inj hsome
    exact ⟨hsect, hsect ▸ hfacing⟩
  · obtain ⟨j, hj⟩ : ∃ j, pos = (j + 1) * 512 := ⟨pos / 512 - 1, by omega⟩
    have hprev : (pos - 1) / 512 = j := by omega
    have hnext : pos / 512 = j + 1 := by omega
    have hleft := hat.left hpos'
    have hmod := Nat.mod_lt j hsc.1
    rw [hprev] at hleft
    rw [hnext]
    by_cases hin : j % vol.sectsClust + 1 < vol.sectsClust
    · -- the cluster goes on
      obtain ⟨hclust, hsect⟩ := Extent.at_add (e := e) hin
      have hbound := hat.file.sectorAt_lt hwf (j := j + 1) (by omega)
      have hcount : (fp.sectClust + 255) % 2 ^ 8 = vol.sectsClust - (j % vol.sectsClust + 1) := by
        omega
      have hcurr : (fp.currSect + 1) % 2 ^ 32 = e.sectorAt vol (j + 1) := by
        rw [hat.currSect hpos', hprev, ← hsect, Nat.mod_eq_of_lt hbound]
      rw [hcount, if_pos (by omega), Comp.ensures_pure]
      refine ⟨h, fun hnone => absurd hnone (by simp), ?_⟩
      intro sect hsome
      obtain rfl := Option.some.inj hsome
      refine ⟨hcurr, ?_⟩
      rw [hcurr, Fil.facing, (div_mod_add hin).2, hclust, hat.currClust hpos', hprev]
    · -- the next cluster
      have hlast : j % vol.sectsClust + 1 = vol.sectsClust := by omega
      obtain ⟨hlink, hzero⟩ := hat.file.at_next hwf (j := j) (by omega) hlast
      have hcount : (fp.sectClust + 255) % 2 ^ 8 = 0 := by omega
      have hvalid : vol.Valid fp.currClust := by
        rw [hat.currClust hpos', hprev]
        exact hat.file.valid_clusterAt hwf (by omega)
      rw [hcount, if_neg (by decide), if_neg (by rw [hat.fptr]; omega)]
      simp only [Comp.ensures_bind, ensures_fatfs]
      refine (getCluster_ensures hdrive h hwf hvalid).imp ?_
      rintro c s' ⟨hm, hc | ⟨rfl, hbad⟩⟩
      · rw [hat.currClust hpos', hprev, ← hlink] at hc
        obtain ⟨hok, hsect, hfacing⟩ := enter_ensures hwf hm hat.file (by omega) hc hzero fp
        rw [if_neg hok, Comp.ensures_pure]
        refine ⟨hm, fun hnone => absurd hnone (by simp), ?_⟩
        intro sect hsome
        obtain rfl := Option.some.inj hsome
        exact ⟨hsect, hsect ▸ hfacing⟩
      · rw [if_pos (.inl (by decide)), Comp.ensures_pure]
        exact ⟨hm, fun _ => ⟨hbad, 0, rfl⟩, fun _ hsome => absurd hsome (by simp)⟩

end Sectors

/-! ## The loop -/

section Loop

variable {δ : Type} {drive : Drive δ} {img : Image} {up : δ → Prop} {healthy : Prop}
  {vol : Fatfs} {s : State δ} {e : Extent} {fp fp' : Fil} {pos n : Nat} {r : Reader}

/-- Another place in the file, for the same object. -/
theorem Fil.At.moved {q a b c : Nat} {d : Sector} (h : fp.At vol img e pos)
    (hfp : fp' = { fp with fptr := q, sectClust := a, currClust := b, currSect := c, buffer := d })
    (hpos : 0 < q) (hbound : q ≤ e.size)
    (hc : c = e.sectorAt vol ((q - 1) / 512)) (hb : b = e.clusterAt vol ((q - 1) / 512))
    (ha : a = vol.sectsClust - (q - 1) / 512 % vol.sectsClust)
    (hd : q % 512 ≠ 0 → ∀ i < 512, d i = img (e.sectorAt vol (q / 512)) i) :
    fp'.At vol img e q := by
  subst hfp
  exact ⟨h.fs, h.id, h.good, h.mode, h.file, h.fsize, rfl, hbound, fun hzero => by omega,
    fun _ => hc, fun _ => hb, fun _ => ha, hd⟩

/-- What the rounds keep: the bytes so far are those of the file, and the object is behind them. -/
structure Reader.Reached (vol : Fatfs) (img : Image) (e : Extent) (pos n : Nat) (r : Reader) :
    Prop where
  fil : r.fil.At vol img e (pos + r.out.length)
  out : r.out = e.bytes vol img pos r.out.length
  br : r.br = r.out.length
  btr : r.btr + r.out.length = n

/-- What `f_read` may come back with: all that was asked for, or an error of the drive and what was
read before. -/
inductive Reading.Right (vol : Fatfs) (img : Image) (e : Extent) (healthy : Prop) (pos n : Nat) :
    Reading → Prop
  | all {fp : Fil} (h : fp.At vol img e (pos + n)) :
      Right vol img e healthy pos n ⟨.ok, e.bytes vol img pos n, n, fp⟩
  | failed {br : Nat} {spilt : List Byte} {fp : Fil} (hbad : ¬ healthy)
      (hlength : br + spilt.length ≤ n) (h : fp.Broken vol) :
      Right vol img e healthy pos n ⟨.rwError, e.bytes vol img pos br ++ spilt, br, fp⟩

theorem Reader.Reached.error (h : r.Reached vol img e pos n) (hbad : ¬ healthy) {spilt : List Byte}
    (hspilt : spilt.length ≤ r.btr) (hfs : fp.fs = r.fil.fs) (hid : fp.id = r.fil.id) :
    ({ r with fil := fp }.error spilt).Right vol img e healthy pos n := by
  have hbtr := h.btr
  rw [Reader.error, h.br, h.out, Extent.length_bytes]
  exact .failed hbad (by omega) (Fil.broken_or (hfs.trans h.fil.fs) (hid.trans h.fil.id) rfl)

theorem Reader.Reached.advance (h : r.Reached vol img e pos n) (hn : n < 2 ^ 16)
    (hbound : pos + n ≤ e.size) {m : Nat} (hpos : 0 < m) (hm : m ≤ r.btr)
    (hfptr : fp.fptr = r.fil.fptr)
    (hat : { fp with fptr := pos + r.out.length + m }.At vol img e (pos + r.out.length + m)) :
    ({ r with fil := fp }.advance m (e.bytes vol img (pos + r.out.length) m)).Reached vol img e
      pos n
      ∧ ({ r with fil := fp }.advance m (e.bytes vol img (pos + r.out.length) m)).btr < r.btr := by
  have hbtr := h.btr
  have hsize := h.fil.file.bound
  have hnext : (fp.fptr + m) % 2 ^ 32 = pos + r.out.length + m := by
    rw [hfptr, h.fil.fptr]
    omega
  have hleft : (r.btr + (2 ^ 16 - m)) % 2 ^ 16 = r.btr - m := by omega
  have hcount : (r.br + m) % 2 ^ 16 = r.out.length + m := by
    rw [h.br]
    omega
  rw [Reader.advance, hnext, hleft, hcount]
  refine ⟨⟨?_, ?_, ?_, ?_⟩, ?_⟩
  · simp only [List.length_append, Extent.length_bytes, ← Nat.add_assoc]
    exact hat
  · simp only [List.length_append, Extent.length_bytes]
    rw [← Extent.bytes_add, ← h.out]
  · simp only [List.length_append, Extent.length_bytes]
  · simp only [List.length_append, Extent.length_bytes]
    omega
  · show r.btr - m < r.btr
    omega

/-- What a round leaves: another round closer to the end, or the result. -/
def Round (vol : Fatfs) (img : Image) (up : δ → Prop) (e : Extent) (healthy : Prop) (pos n : Nat)
    (r : Reader) (x : Reader ⊕ Reading) (s : State δ) : Prop :=
  Mounted img up vol s ∧
    x.elim (fun r' => r'.Reached vol img e pos n ∧ r'.btr < r.btr)
      fun q => q.Right vol img e healthy pos n

/-- The bytes that are left of the sector in the buffer. -/
theorem Reader.Reached.copy (h : r.Reached vol img e pos n) (hn : n < 2 ^ 16)
    (hbound : pos + n ≤ e.size) (hbtr : r.btr ≠ 0)
    (hfp : fp = { r.fil with
      currClust := fp.currClust
      currSect := fp.currSect
      sectClust := fp.sectClust
      buffer := fp.buffer })
    (hsect : fp.currSect = e.sectorAt vol ((pos + r.out.length) / 512))
    (hclust : fp.currClust = e.clusterAt vol ((pos + r.out.length) / 512))
    (hleft : fp.sectClust = vol.sectsClust - (pos + r.out.length) / 512 % vol.sectsClust)
    (hbuf : ∀ i < 512, fp.buffer i = img (e.sectorAt vol ((pos + r.out.length) / 512)) i) :
    ({ r with fil := fp }.copy).Reached vol img e pos n ∧
      ({ r with fil := fp }.copy).btr < r.btr := by
  have hbtr' := h.btr
  have hfptr : fp.fptr = r.fil.fptr := by rw [hfp]
  have hpos : fp.fptr = pos + r.out.length := hfptr.trans h.fil.fptr
  have hmod : fp.fptr % 2 ^ 16 % 512 = fp.fptr % 512 := by omega
  obtain ⟨m, hm⟩ : ∃ m, m = if 512 - fp.fptr % 512 > r.btr then r.btr else 512 - fp.fptr % 512 :=
    ⟨_, rfl⟩
  have hcopy : { r with fil := fp }.copy =
      { r with fil := fp }.advance m (slice fp.buffer (fp.fptr % 512) m) := by
    unfold Reader.copy
    simp only [and_511, hmod, ← hm]
  have hlow : 0 < m ∧ m ≤ r.btr ∧ fp.fptr % 512 + m ≤ 512 := by
    rw [hm]
    split_ifs <;> omega
  obtain ⟨hm0, hmle, hmfit⟩ := hlow
  rw [hpos] at hmfit
  rw [hcopy, hpos, Extent.slice_eq hbuf hmfit]
  refine h.advance hn hbound hm0 hmle hfptr ?_
  have hprev : (pos + r.out.length + m - 1) / 512 = (pos + r.out.length) / 512 := by omega
  refine h.fil.moved (a := fp.sectClust) (b := fp.currClust) (c := fp.currSect) (d := fp.buffer)
    ?_ (by omega) (by omega) ?_ ?_ ?_ ?_
  · rw [hfp]
  · rw [hprev, hsect]
  · rw [hprev, hclust]
  · rw [hprev, hleft]
  · intro hne
    rw [show (pos + r.out.length + m) / 512 = (pos + r.out.length) / 512 by omega]
    exact hbuf

theorem readDirect_ensures (hdrive : drive.Holds img up healthy) (hwf : vol.WellFormed)
    (hm : Mounted img up vol s) (h : r.Reached vol img e pos n) (hn : n < 2 ^ 16)
    (hbound : pos + n ≤ e.size) {j cc : Nat} (hj : pos + r.out.length = j * 512) (hcc : cc ≠ 0)
    (hle : cc * 512 ≤ r.btr) {r' : Reader} (hr' : r' = { r with fil := r.fil.facing vol e j }) :
    (readDirect drive r' (e.sectorAt vol j) cc).Ensures s (Round vol img up e healthy pos n r) := by
  have hsc := hwf.sectsClust
  have hmod := Nat.mod_lt j hsc.1
  have hbtr := h.btr
  have hleft : r'.fil.sectClust = vol.sectsClust - j % vol.sectsClust := by rw [hr']; rfl
  obtain ⟨k, hk⟩ : ∃ k, k = if cc > r'.fil.sectClust then r'.fil.sectClust else cc := ⟨_, rfl⟩
  have hk0 : 0 < k ∧ k ≤ cc ∧ j % vol.sectsClust + k ≤ vol.sectsClust := by
    rw [hk]
    split_ifs <;> omega
  obtain ⟨hkpos, hkle, hkfit⟩ := hk0
  have hkbtr : k * 512 ≤ r.btr := (Nat.mul_le_mul_right 512 hkle).trans hle
  simp only [readDirect, ← hk, Comp.ensures_bind, ensures_fatfs, ensures_below]
  clear hk hleft
  subst hr'
  refine (hdrive.read s.drive s.fs.drive _ k hm.up hkpos).imp ?_
  rintro ⟨res, data⟩ d' ⟨hup, hok, hfail⟩
  have hmounted := hm.below hup
  by_cases hres : res = .ok
  · have hdata : data = sectors img (e.sectorAt vol j) k := hok hres
    rw [if_neg (not_not.mpr hres), Comp.ensures_pure, hdata, Extent.sectors_eq hkfit, ← hj,
      Nat.mod_eq_of_lt (by omega : k * 512 < 2 ^ 16)]
    refine ⟨hmounted, h.advance hn hbound (by omega) hkbtr rfl ?_⟩
    have hin : j % vol.sectsClust + (k - 1) < vol.sectsClust := by omega
    obtain ⟨hclust, hsect⟩ := Extent.at_add (e := e) hin
    have hlast : (pos + r.out.length + k * 512 - 1) / 512 = j + (k - 1) := by omega
    have hlt := h.fil.file.sectorAt_lt hwf (j := j + (k - 1)) (by omega)
    refine h.fil.moved rfl (by omega) (by omega) ?_ ?_ ?_ fun hne => absurd (by omega) hne
    · show (e.sectorAt vol j + k + (2 ^ 32 - 1)) % 2 ^ 32 = _
      rw [hlast, hsect]
      omega
    · rw [hlast, hclust]
      rfl
    · show (vol.sectsClust - j % vol.sectsClust + 1 + (2 ^ 8 - k)) % 2 ^ 8 = _
      rw [hlast, (div_mod_add hin).2]
      omega
  · obtain ⟨hbad, hlength, -⟩ := hfail hres
    rw [if_pos hres, Comp.ensures_pure]
    exact ⟨hmounted, h.error hbad (hlength.trans hkbtr) rfl rfl⟩

theorem readBuffered_ensures (hdrive : drive.Holds img up healthy)
    (hm : Mounted img up vol s) (h : r.Reached vol img e pos n) (hn : n < 2 ^ 16)
    (hbound : pos + n ≤ e.size) {j : Nat} (hj : pos + r.out.length = j * 512) (hbtr : r.btr ≠ 0) :
    (readBuffered drive { r with fil := r.fil.facing vol e j } (e.sectorAt vol j)).Ensures s
      (Round vol img up e healthy pos n r) := by
  have hdiv : (pos + r.out.length) / 512 = j := by omega
  unfold readBuffered
  simp only [Comp.ensures_bind, ensures_fatfs, ensures_below, Comp.ensures_pure]
  refine (hdrive.read s.drive s.fs.drive _ 1 hm.up Nat.one_pos).imp ?_
  rintro ⟨res, data⟩ d' ⟨hup, hok, hfail⟩
  have hmounted := hm.below hup
  refine ⟨hmounted, ?_⟩
  by_cases hres : res = .ok
  · have hdata : data = sectors img (e.sectorAt vol j) 1 := hok hres
    rw [if_neg (not_not.mpr hres)]
    refine h.copy hn hbound hbtr rfl ?_ ?_ ?_ ?_ <;> rw [hdiv]
    · rfl
    · rfl
    · rfl
    · intro i hi
      show overlay r.fil.buffer data i = _
      rw [hdata, overlay_sectors hi]
  · rw [if_pos hres]
    exact h.error (hfail hres).1 (Nat.zero_le _) rfl rfl

theorem fReadRound_ensures (hdrive : drive.Holds img up healthy) (hwf : vol.WellFormed)
    (hn : n < 2 ^ 16) (hbound : pos + n ≤ e.size) (h : r.Reached vol img e pos n)
    (hm : Mounted img up vol s) :
    (fReadRound drive r).Ensures s (Round vol img up e healthy pos n r) := by
  have hbtr := h.btr
  have hfptr := h.fil.fptr
  unfold fReadRound
  by_cases hdone : r.btr = 0
  · rw [if_pos hdone, Comp.ensures_pure]
    have hlength : r.out.length = n := by omega
    have hright : (⟨.ok, r.out, r.br, r.fil⟩ : Reading).Right vol img e healthy pos n := by
      rw [h.br, h.out, Extent.length_bytes, hlength]
      exact .all (hlength ▸ h.fil)
    exact ⟨hm, hright⟩
  · rw [if_neg hdone, and_511]
    by_cases hstart : r.fil.fptr % 512 = 0
    · rw [if_pos hstart]
      simp only [Comp.ensures_bind]
      rw [hfptr] at hstart
      obtain ⟨j, hj⟩ : ∃ j, pos + r.out.length = j * 512 := ⟨(pos + r.out.length) / 512, by omega⟩
      have hdiv : (pos + r.out.length) / 512 = j := by omega
      refine (nextSector_ensures hdrive hwf hm h.fil hstart (by omega)).imp ?_
      rintro ⟨fil, sect⟩ s' ⟨hm', hnone, hsome⟩
      cases sect with
      | none =>
        obtain ⟨hbad, k, hfil⟩ := hnone rfl
        rw [Comp.ensures_pure]
        exact ⟨hm', h.error hbad (Nat.zero_le _) (by rw [hfil]) (by rw [hfil])⟩
      | some sect =>
        obtain ⟨hsect, hfacing⟩ := hsome sect rfl
        simp only at hsect hfacing
        simp only [hfacing]
        rw [hdiv] at hsect ⊢
        rw [hsect]
        by_cases hcc : r.btr / 512 % 2 ^ 8 ≠ 0
        · rw [if_pos hcc]
          exact readDirect_ensures hdrive hwf hm' h hn hbound hj hcc (by omega) rfl
        · rw [if_neg hcc]
          exact readBuffered_ensures hdrive hm' h hn hbound hj hdone
    · rw [if_neg hstart, Comp.ensures_pure]
      rw [hfptr] at hstart
      have hpos : 0 < pos + r.out.length := by omega
      have hprev : (pos + r.out.length - 1) / 512 = (pos + r.out.length) / 512 := by omega
      refine ⟨hm, h.copy hn hbound hdone (Eq.refl r.fil) ?_ ?_ ?_ (h.fil.buffer hstart)⟩
      · rw [← hprev, h.fil.currSect hpos]
      · rw [← hprev, h.fil.currClust hpos]
      · rw [← hprev, h.fil.left hpos]

theorem validate_ensures (hdrive : drive.Holds img up healthy) (hm : Mounted img up vol s)
    (hfs : fp.fs = true) (hid : fp.id = vol.id) :
    (validate drive fp).Ensures s fun res s' => res = .ok ∧ Mounted img up vol s' := by
  have hsame : s.fs.id = fp.id := by rw [hm.fs, hid]
  simp only [validate, Comp.ensures_bind, ensures_fatfs]
  rw [if_neg (by simp [hfs, hsame])]
  simp only [Comp.ensures_bind, ensures_below, Comp.ensures_pure]
  refine (hdrive.status s.drive s.fs.drive hm.up).imp ?_
  rintro stat d' ⟨hup, hstat⟩
  exact ⟨if_neg (not_not.mpr hstat), hm.below hup⟩

/-- `f_read` gives the bytes of the file from its position on, up to `btr` or the end of the file,
and leaves the object behind them; or the drive has failed. -/
theorem fRead_ensures (hdrive : drive.Holds img up healthy) (hwf : vol.WellFormed)
    (hm : Mounted img up vol s) (hat : fp.At vol img e pos) {btr : Nat} (hbtr : btr < 2 ^ 16) :
    (fRead drive fp btr).Ensures s fun q s' => Mounted img up vol s' ∧
      q.Right vol img e healthy pos (min btr (e.size - pos)) := by
  have hbound := hat.bound
  have hsize := hat.file.bound
  have hremain : (fp.fsize + (2 ^ 32 - fp.fptr)) % 2 ^ 32 = e.size - pos := by
    rw [hat.fsize, hat.fptr]
    omega
  have hcut : (if btr > e.size - pos then (e.size - pos) % 2 ^ 16 else btr) =
      min btr (e.size - pos) := by
    split_ifs <;> omega
  simp only [fRead, Comp.ensures_bind]
  refine (validate_ensures hdrive hm hat.fs hat.id).imp ?_
  rintro res s' ⟨rfl, hm'⟩
  rw [if_neg (by decide), if_neg (not_not.mpr hat.good), if_neg hat.mode, hremain, hcut]
  refine Comp.ensures_loop
    (fun r s => r.Reached vol img e pos (min btr (e.size - pos)) ∧ Mounted img up vol s)
    (fun r => r.btr) ?_ ⟨⟨hat, rfl, rfl, rfl⟩, hm'⟩
  rintro r s ⟨hr, hm⟩
  refine (fReadRound_ensures hdrive hwf (by omega) (by omega) hr hm).imp ?_
  rintro x s' ⟨hm', hx⟩
  cases x with
  | inl r' => exact ⟨⟨hx.1, hm'⟩, hx.2⟩
  | inr q => exact ⟨hm', hx⟩

end Loop

end FatFs

end Xtc
