import Xtc.FatFs.Volume

/-!
# Table — the window and the file allocation table

A drive that holds an image answers a read with the sectors of the image, or fails and leaves a
buffer of one sector alone.  The window shows a sector of the image at all times, and `get_cluster`
finds in it what the table says.
-/

namespace Xtc

namespace FatFs

open Bits (Byte)
open Ffwrap (Fresult)

abbrev Image := Nat → Sector

def sectors (img : Image) (sect count : Nat) : List Byte :=
  (List.range (count * 512)).map fun i => img (sect + i / 512) (i % 512)

/-- A drive that holds an image as long as it is `up`.  It may fail unless it is `healthy`. -/
structure Drive.Holds {δ : Type} (drive : Drive δ) (img : Image) (up : δ → Prop) (healthy : Prop) :
    Prop where
  status : ∀ d drv, up d → (drive.diskStatus drv).Ensures d fun stat d' =>
    up d' ∧ stat &&& staNoinit = 0
  read : ∀ d drv sect count, up d → 0 < count → (drive.diskRead drv sect count).Ensures d
    fun r d' => up d' ∧ (r.1 = .ok → r.2 = sectors img sect count) ∧
      (r.1 ≠ .ok → ¬ healthy ∧ r.2.length ≤ count * 512 ∧ (count = 1 → r.2 = []))

section Buffers

variable {img : Image} {buf : Sector} {sect : Nat}

@[simp] theorem length_sectors (count : Nat) : (sectors img sect count).length = count * 512 := by
  simp [sectors]

theorem overlay_sectors {i : Nat} (h : i < 512) :
    overlay buf (sectors img sect 1) i = img sect i := by
  have hlt : i < (sectors img sect 1).length := by simpa using h
  rw [overlay, List.getElem?_eq_getElem hlt, Option.getD_some]
  simp only [sectors, List.getElem_map, List.getElem_range]
  rw [Nat.div_eq_of_lt h, Nat.mod_eq_of_lt h, Nat.add_zero]

@[simp] theorem overlay_nil : overlay buf [] = buf := rfl

end Buffers

/-! Masks and shifts, as remainders and products. -/

section Bits

variable {p : Sector} {i n : Nat}

theorem and_511 : n &&& 511 = n % 512 := Nat.and_two_pow_sub_one_eq_mod n 9

theorem ldWord_eq : ldWord p i = (p i).toNat + 256 * (p (i + 1)).toNat := by
  rw [ldWord, ← Nat.shiftLeft_add_eq_or_of_lt (p i).isLt, Nat.shiftLeft_eq]
  omega

theorem ldDword_eq : ldDword p i = (p i).toNat + 256 * (p (i + 1)).toNat +
    65536 * (p (i + 2)).toNat + 16777216 * (p (i + 3)).toNat := by
  have h0 := (p i).isLt
  have h1 := (p (i + 1)).isLt
  have h2 := (p (i + 2)).isLt
  have hlow : (p (i + 1)).toNat <<< 8 ||| (p i).toNat =
      (p (i + 1)).toNat * 256 + (p i).toNat := by
    rw [← Nat.shiftLeft_add_eq_or_of_lt h0, Nat.shiftLeft_eq]
  have hmid : (p (i + 2)).toNat <<< 16 ||| ((p (i + 1)).toNat * 256 + (p i).toNat) =
      (p (i + 2)).toNat * 65536 + ((p (i + 1)).toNat * 256 + (p i).toNat) := by
    rw [← Nat.shiftLeft_add_eq_or_of_lt (by omega), Nat.shiftLeft_eq]
  rw [ldDword, Nat.or_assoc, Nat.or_assoc, hlow, hmid,
    ← Nat.shiftLeft_add_eq_or_of_lt (by omega), Nat.shiftLeft_eq]
  omega

end Bits

section Steps

variable {δ : Type} {s : State δ}

@[simp] theorem ensures_fatfs {Q : Fatfs → State δ → Prop} : fatfs.Ensures s Q ↔ Q s.fs s :=
  Comp.ensures_act

@[simp] theorem ensures_setFs {f : Fatfs → Fatfs} {Q : Unit → State δ → Prop} :
    (setFs f).Ensures s Q ↔ Q () { s with fs := f s.fs } :=
  Comp.ensures_act

@[simp] theorem ensures_below {α : Type} {c : Comp δ α} {Q : α → State δ → Prop} :
    (below c).Ensures s Q ↔ c.Ensures s.drive fun a d => Q a { s with drive := d } :=
  Comp.ensures_on

end Steps

/-! ## Volumes -/

namespace Fatfs

/-- The type that `auto_mount` takes a volume for. -/
def typeOf (maxClust : Nat) : FsType :=
  if maxClust > 0xFFF7 then .fat32 else if maxClust > 0xFF7 then .fat16 else .fat12

/-- The parts of a volume have their place below sector 2³². -/
structure WellFormed (vol : Fatfs) : Prop where
  fatbase : 0 < vol.fatbase
  sectsClust : 0 < vol.sectsClust ∧ vol.sectsClust ≤ 128
  maxClust : 2 ≤ vol.maxClust ∧ vol.maxClust < 2 ^ 32
  table : vol.fatbase + vol.maxClust / 128 < 2 ^ 32
  data : vol.database + (vol.maxClust - 2) * vol.sectsClust ≤ 2 ^ 32
  fsType : vol.fsType = typeOf vol.maxClust

variable (vol : Fatfs) (img : Image)

def fatByte (k : Nat) : Nat := (img (vol.fatbase + k / 512) (k % 512)).toNat

/-- The entry of a cluster in the table: 12, 16 or 28 bits. -/
def link (c : Nat) : Nat :=
  match vol.fsType with
  | .none => noLink
  | .fat12 =>
    let w := vol.fatByte img (c * 3 / 2) + 256 * vol.fatByte img (c * 3 / 2 + 1)
    if c % 2 = 1 then w / 16 else w % 4096
  | .fat16 => vol.fatByte img (2 * c) + 256 * vol.fatByte img (2 * c + 1)
  | .fat32 =>
    (vol.fatByte img (4 * c) + 256 * vol.fatByte img (4 * c + 1) +
      65536 * vol.fatByte img (4 * c + 2) + 16777216 * vol.fatByte img (4 * c + 3)) % 2 ^ 28

def Valid (c : Nat) : Prop := 2 ≤ c ∧ c < vol.maxClust

def start (c : Nat) : Nat := vol.database + (c - 2) * vol.sectsClust

variable {vol} {c : Nat}

theorem WellFormed.start_add_le (h : vol.WellFormed) (hc : vol.Valid c) :
    vol.start c + vol.sectsClust ≤ 2 ^ 32 := by
  have hdata := h.data
  obtain ⟨htwo, hlt⟩ := hc
  have hmul : (c - 2 + 1) * vol.sectsClust ≤ (vol.maxClust - 2) * vol.sectsClust :=
    Nat.mul_le_mul_right _ (by omega)
  rw [Nat.succ_mul] at hmul
  unfold start
  omega

theorem WellFormed.clust2sect (h : vol.WellFormed) (hc : vol.Valid c) :
    FatFs.clust2sect vol c = vol.start c := by
  have hend := h.start_add_le hc
  have hpos := h.sectsClust.1
  have hmax := h.maxClust
  obtain ⟨htwo, hlt⟩ := hc
  have hc' : (c + (2 ^ 32 - 2)) % 2 ^ 32 = c - 2 := by omega
  have hm' : (vol.maxClust + (2 ^ 32 - 2)) % 2 ^ 32 = vol.maxClust - 2 := by omega
  unfold FatFs.clust2sect
  simp only [hc', hm']
  rw [if_neg (by omega), Nat.add_comm]
  apply Nat.mod_eq_of_lt
  unfold start at hend
  omega

end Fatfs

/-! ## A volume that is mounted -/

section Mounted

variable {δ : Type} {drive : Drive δ} {img : Image} {up : δ → Prop} {healthy : Prop}
  {vol : Fatfs} {s : State δ} {c : Nat}

/-- The file system object is that of `vol`, but for the window, which shows the image. -/
structure Mounted (img : Image) (up : δ → Prop) (vol : Fatfs) (s : State δ) : Prop where
  up : up s.drive
  fs : s.fs = { vol with win := s.fs.win, winsect := s.fs.winsect }
  window : s.fs.winsect ≠ 0 → ∀ i < 512, s.fs.win i = img s.fs.winsect i

theorem Mounted.below (h : Mounted img up vol s) {d : δ} (hup : up d) :
    Mounted img up vol { s with drive := d } :=
  ⟨hup, h.fs, h.window⟩

theorem moveWindow_ensures (hdrive : drive.Holds img up healthy) (h : Mounted img up vol s)
    {sector : Nat} (hsector : sector ≠ 0) :
    (moveWindow drive sector).Ensures s fun ok s' => Mounted img up vol s' ∧
      (ok = true → ∀ i < 512, s'.fs.win i = img sector i) ∧ (ok = false → ¬ healthy) := by
  simp only [moveWindow, Comp.ensures_bind, ensures_fatfs]
  by_cases hsame : s.fs.winsect = sector
  · rw [if_neg (not_not.mpr hsame), Comp.ensures_pure]
    refine ⟨h, fun _ => ?_, fun hfalse => absurd hfalse (by decide)⟩
    rw [← hsame]
    exact h.window (hsame ▸ hsector)
  · rw [if_pos hsame, if_pos hsector]
    simp only [Comp.ensures_bind, ensures_below, ensures_setFs]
    refine (hdrive.read s.drive s.fs.drive sector 1 h.up Nat.one_pos).imp ?_
    rintro ⟨res, data⟩ d' ⟨hup, hok, hfail⟩
    by_cases hres : res = .ok
    · have hdata : data = sectors img sector 1 := hok hres
      rw [if_neg (not_not.mpr hres)]
      simp only [Comp.ensures_bind, ensures_setFs, Comp.ensures_pure]
      refine ⟨⟨hup, ?_, fun _ i hi => ?_⟩, fun _ i hi => ?_,
        fun hfalse => absurd hfalse (by decide)⟩
      · rw [h.fs]
      · show overlay s.fs.win data i = img sector i
        rw [hdata, overlay_sectors hi]
      · show overlay s.fs.win data i = img sector i
        rw [hdata, overlay_sectors hi]
    · obtain ⟨hbad, -, hnil⟩ := hfail hres
      rw [if_pos hres, Comp.ensures_pure]
      obtain rfl : data = [] := hnil rfl
      exact ⟨⟨hup, h.fs, h.window⟩, fun hfalse => absurd hfalse (by decide),
        fun _ => hbad⟩

/-! The entry of a cluster, as each kind of table has it. -/

variable (hdrive : drive.Holds img up healthy) (h : Mounted img up vol s)

include hdrive h

/-- The sector of the table that holds byte `k`. -/
theorem fatWindow (hwf : vol.WellFormed) {k : Nat} (hk : k < 4 * vol.maxClust) :
    (moveWindow drive ((s.fs.fatbase + k / 512) % 2 ^ 32)).Ensures s fun ok s' =>
      Mounted img up vol s' ∧
        (ok = true → ∀ j, j / 512 = k / 512 →
          (s'.fs.win (j % 512)).toNat = vol.fatByte img j) ∧ (ok = false → ¬ healthy) := by
  have hbase : s.fs.fatbase = vol.fatbase := by rw [h.fs]
  have hpos := hwf.fatbase
  have htable := hwf.table
  have hmod : (s.fs.fatbase + k / 512) % 2 ^ 32 = vol.fatbase + k / 512 := by
    rw [hbase]
    apply Nat.mod_eq_of_lt
    omega
  rw [hmod]
  refine (moveWindow_ensures hdrive h (by omega)).imp ?_
  rintro ok s' ⟨hm, hok, hfail⟩
  refine ⟨hm, fun htrue j hj => ?_, hfail⟩
  rw [hok htrue (j % 512) (Nat.mod_lt _ (by decide)), Fatfs.fatByte, hj]

theorem getCluster16_ensures (hwf : vol.WellFormed) (hc : vol.Valid c)
    (htype : vol.fsType = .fat16) :
    (getCluster16 drive c).Ensures s fun r s' => Mounted img up vol s' ∧
      (r = vol.link img c ∨ r = noLink ∧ ¬ healthy) := by
  have hsect : c / 256 = 2 * c / 512 := by omega
  simp only [getCluster16, Comp.ensures_bind, ensures_fatfs, hsect]
  refine (fatWindow hdrive h hwf (k := 2 * c) (by have := hc.2; omega)).imp ?_
  rintro ok s' ⟨hm, hok, hfail⟩
  cases ok with
  | false => exact Comp.ensures_pure.mpr ⟨hm, .inr ⟨rfl, hfail rfl⟩⟩
  | true =>
    simp only [if_true, Comp.ensures_bind, ensures_fatfs, Comp.ensures_pure]
    refine ⟨hm, .inl ?_⟩
    have hofs : c % 2 ^ 16 * 2 &&& 511 = 2 * c % 512 := by rw [and_511]; omega
    have hofs' : 2 * c % 512 + 1 = (2 * c + 1) % 512 := by omega
    rw [hofs, ldWord_eq, hofs', hok rfl _ rfl, hok rfl (2 * c + 1) (by omega), Fatfs.link, htype]

theorem getCluster32_ensures (hwf : vol.WellFormed) (hc : vol.Valid c)
    (htype : vol.fsType = .fat32) :
    (getCluster32 drive c).Ensures s fun r s' => Mounted img up vol s' ∧
      (r = vol.link img c ∨ r = noLink ∧ ¬ healthy) := by
  have hsect : c / 128 = 4 * c / 512 := by omega
  simp only [getCluster32, Comp.ensures_bind, ensures_fatfs, hsect]
  refine (fatWindow hdrive h hwf (k := 4 * c) (by have := hc.2; omega)).imp ?_
  rintro ok s' ⟨hm, hok, hfail⟩
  cases ok with
  | false => exact Comp.ensures_pure.mpr ⟨hm, .inr ⟨rfl, hfail rfl⟩⟩
  | true =>
    simp only [if_true, Comp.ensures_bind, ensures_fatfs, Comp.ensures_pure]
    refine ⟨hm, .inl ?_⟩
    have hofs : c % 2 ^ 16 * 4 &&& 511 = 4 * c % 512 := by rw [and_511]; omega
    have hofs1 : 4 * c % 512 + 1 = (4 * c + 1) % 512 := by omega
    have hofs2 : 4 * c % 512 + 2 = (4 * c + 2) % 512 := by omega
    have hofs3 : 4 * c % 512 + 3 = (4 * c + 3) % 512 := by omega
    rw [hofs, ldDword_eq, hofs1, hofs2, hofs3, hok rfl _ rfl, hok rfl (4 * c + 1) (by omega),
      hok rfl (4 * c + 2) (by omega), hok rfl (4 * c + 3) (by omega), Fatfs.link, htype]
    exact Nat.and_two_pow_sub_one_eq_mod _ 28

theorem getCluster12_ensures (hwf : vol.WellFormed) (hc : vol.Valid c)
    (htype : vol.fsType = .fat12) :
    (getCluster12 drive c).Ensures s fun r s' => Mounted img up vol s' ∧
      (r = vol.link img c ∨ r = noLink ∧ ¬ healthy) := by
  have hsmall : vol.maxClust ≤ 0xFF7 := by
    have hof := hwf.fsType
    rw [htype] at hof
    unfold Fatfs.typeOf at hof
    split_ifs at hof
    omega
  have hlt := hc.2
  have hbc : c % 2 ^ 16 * 3 / 2 % 2 ^ 16 = c * 3 / 2 := by
    rw [Nat.mod_eq_of_lt (by omega : c < 2 ^ 16), Nat.mod_eq_of_lt (by omega)]
  have hbc' : (c * 3 / 2 + 1) % 2 ^ 16 = c * 3 / 2 + 1 := by omega
  simp only [getCluster12, Comp.ensures_bind, ensures_fatfs, hbc, hbc']
  refine (fatWindow hdrive h hwf (k := c * 3 / 2) (by omega)).imp ?_
  rintro ok s₁ ⟨hm₁, hok₁, hfail₁⟩
  cases ok with
  | false => exact Comp.ensures_pure.mpr ⟨hm₁, .inr ⟨rfl, hfail₁ rfl⟩⟩
  | true =>
    simp only [if_true, Comp.ensures_bind, ensures_fatfs]
    refine (fatWindow hdrive hm₁ hwf (k := c * 3 / 2 + 1) (by omega)).imp ?_
    rintro ok s₂ ⟨hm₂, hok₂, hfail₂⟩
    cases ok with
    | false => exact Comp.ensures_pure.mpr ⟨hm₂, .inr ⟨rfl, hfail₂ rfl⟩⟩
    | true =>
      simp only [if_true, Comp.ensures_bind, ensures_fatfs, Comp.ensures_pure]
      refine ⟨hm₂, .inl ?_⟩
      have hlow : vol.fatByte img (c * 3 / 2) < 2 ^ 8 := BitVec.isLt _
      have hone : c &&& 1 = c % 2 := Nat.and_two_pow_sub_one_eq_mod c 1
      have hfff : ∀ w, w &&& 0xFFF = w % 4096 := fun w => Nat.and_two_pow_sub_one_eq_mod w 12
      rw [and_511, and_511, hok₁ rfl _ rfl, hok₂ rfl _ rfl, Nat.or_comm,
        ← Nat.shiftLeft_add_eq_or_of_lt hlow, Nat.shiftLeft_eq, hone, hfff,
        Nat.shiftRight_eq_div_pow, Fatfs.link, htype]
      simp only
      split_ifs <;> omega

/-- `get_cluster` gives the link of a cluster, or fails. -/
theorem getCluster_ensures (hwf : vol.WellFormed) (hc : vol.Valid c) :
    (getCluster drive c).Ensures s fun r s' => Mounted img up vol s' ∧
      (r = vol.link img c ∨ r = noLink ∧ ¬ healthy) := by
  have hmax : s.fs.maxClust = vol.maxClust := by rw [h.fs]
  have htype : s.fs.fsType = vol.fsType := by rw [h.fs]
  simp only [getCluster, Comp.ensures_bind, ensures_fatfs, hmax, htype]
  rw [if_pos (show 2 ≤ c ∧ c < vol.maxClust from hc)]
  cases hkind : vol.fsType with
  | none =>
    have hof := hwf.fsType
    rw [hkind] at hof
    unfold Fatfs.typeOf at hof
    split_ifs at hof
  | fat12 => exact getCluster12_ensures hdrive h hwf hc hkind
  | fat16 => exact getCluster16_ensures hdrive h hwf hc hkind
  | fat32 => exact getCluster32_ensures hdrive h hwf hc hkind

end Mounted

end FatFs

end Xtc
