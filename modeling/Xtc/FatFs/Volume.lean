import Xtc.App.Ffwrap

/-!
# Volume — a FAT volume on a drive, `fatfs/ff.c` as it is configured

`_FS_READONLY` is 1, so nothing is written.  The model begins with a mounted volume and open files:
it has the calls on them, without `f_mount`, `f_open` and the search of directories.  There is one
file system object, that of `ffwrap.c`; a pointer to it is a flag.  The drive below is any machine
that answers `disk_status` and `disk_read`.  A sector is a function of the offset in it, and
integers are kept in the width they have in C.
-/

namespace Xtc

namespace FatFs

open Bits (Byte)
open Ffwrap (Fresult)

/-- `DRESULT` of `diskio.h`. -/
inductive Dresult
  | ok | error | wrprt | notrdy | parerr
  deriving DecidableEq, Repr

/-- What `diskio.h` asks for.  A read gives its result and what it has put into the buffer. -/
structure Drive (δ : Type) where
  diskStatus : Nat → Comp δ Byte
  diskRead : (drv sect count : Nat) → Comp δ (Dresult × List Byte)

abbrev Sector := Nat → Byte

def overlay (buf : Sector) (data : List Byte) : Sector := fun i => data[i]?.getD (buf i)

def slice (buf : Sector) (ofs n : Nat) : List Byte := (List.range n).map fun i => buf (ofs + i)

/-! ## Objects -/

inductive FsType
  | none | fat12 | fat16 | fat32
  deriving DecidableEq, Repr

/-- `FATFS`, without what only mounting, directories and a file system that writes use. -/
structure Fatfs where
  id : Nat
  winsect : Nat
  maxClust : Nat
  fatbase : Nat
  database : Nat
  fsType : FsType
  sectsClust : Nat
  drive : Nat
  win : Sector

/-- `FIL`; `fs` says whether the object points to the file system. -/
structure Fil where
  id : Nat
  flag : Byte
  sectClust : Nat
  fs : Bool
  fptr : Nat
  fsize : Nat
  orgClust : Nat
  currClust : Nat
  currSect : Nat
  buffer : Sector

def faRead : Byte := 0x01
def faError : Byte := 0x80

def staNoinit : Byte := 0x01

structure State (δ : Type) where
  fs : Fatfs
  drive : δ

/-! ## Little-endian words -/

def ldWord (p : Sector) (i : Nat) : Nat := (p (i + 1)).toNat <<< 8 ||| (p i).toNat

def ldDword (p : Sector) (i : Nat) : Nat :=
  (p (i + 3)).toNat <<< 24 ||| (p (i + 2)).toNat <<< 16 ||| (p (i + 1)).toNat <<< 8 |||
    (p i).toNat

section Code

variable {δ : Type} (drive : Drive δ)

def fatfs : Comp (State δ) Fatfs := .act fun s => (s.fs, s)

def setFs (f : Fatfs → Fatfs) : Comp (State δ) Unit := .act fun s => ((), { s with fs := f s.fs })

def below {α : Type} (c : Comp δ α) : Comp (State δ) α :=
  c.on State.drive fun d s => { s with drive := d }

/-! ## The window -/

def moveWindow (sector : Nat) : Comp (State δ) Bool := do
  let fs ← fatfs
  if fs.winsect ≠ sector then
    if sector ≠ 0 then do
      let r ← below (drive.diskRead fs.drive sector 1)
      setFs fun fs => { fs with win := overlay fs.win r.2 }
      if r.1 ≠ .ok then pure false
      else do
        setFs fun fs => { fs with winsect := sector }
        pure true
    else pure true
  else pure true

/-! ## Clusters -/

/-- What `get_cluster` gives for a number without a link, and after an error. -/
def noLink : Nat := 1

def getCluster12 (clust : Nat) : Comp (State δ) Nat := do
  let fs ← fatfs
  let bc := clust % 2 ^ 16 * 3 / 2 % 2 ^ 16
  let ok ← moveWindow drive ((fs.fatbase + bc / 512) % 2 ^ 32)
  if ok then do
    let fs ← fatfs
    let low := (fs.win (bc &&& 511)).toNat
    let bc := (bc + 1) % 2 ^ 16
    let ok ← moveWindow drive ((fs.fatbase + bc / 512) % 2 ^ 32)
    if ok then do
      let fs ← fatfs
      let wc := low ||| (fs.win (bc &&& 511)).toNat <<< 8
      pure (if clust &&& 1 ≠ 0 then wc >>> 4 else wc &&& 0xFFF)
    else pure noLink
  else pure noLink

def getCluster16 (clust : Nat) : Comp (State δ) Nat := do
  let fs ← fatfs
  let ok ← moveWindow drive ((fs.fatbase + clust / 256) % 2 ^ 32)
  if ok then do
    let fs ← fatfs
    pure (ldWord fs.win (clust % 2 ^ 16 * 2 &&& 511))
  else pure noLink

def getCluster32 (clust : Nat) : Comp (State δ) Nat := do
  let fs ← fatfs
  let ok ← moveWindow drive ((fs.fatbase + clust / 128) % 2 ^ 32)
  if ok then do
    let fs ← fatfs
    pure (ldDword fs.win (clust % 2 ^ 16 * 4 &&& 511) &&& 0x0FFFFFFF)
  else pure noLink

def getCluster (clust : Nat) : Comp (State δ) Nat := do
  let fs ← fatfs
  if 2 ≤ clust ∧ clust < fs.maxClust then
    match fs.fsType with
    | .fat12 => getCluster12 drive clust
    | .fat16 => getCluster16 drive clust
    | .fat32 => getCluster32 drive clust
    | .none => pure noLink
  else pure noLink

def clust2sect (fs : Fatfs) (clust : Nat) : Nat :=
  let clust := (clust + (2 ^ 32 - 2)) % 2 ^ 32
  if clust ≥ (fs.maxClust + (2 ^ 32 - 2)) % 2 ^ 32 then 0
  else (clust * fs.sectsClust + fs.database) % 2 ^ 32

/-! ## Files -/

/-- `validate`, of the object that a file points to. -/
def validate (fp : Fil) : Comp (State δ) Fresult := do
  let fs ← fatfs
  if fp.fs = false ∨ fs.id ≠ fp.id then pure .invalidObject
  else do
    let stat ← below (drive.diskStatus fs.drive)
    pure (if stat &&& staNoinit ≠ 0 then .notReady else .ok)

/-- What `f_read` gives back: its result, what it has put into the buffer, the count in `*br` and
the file object. -/
structure Reading where
  result : Fresult
  data : List Byte
  br : Nat
  fil : Fil

/-- The variables of the loop of `f_read`; `out` is what is in front of `rbuff`. -/
structure Reader where
  fil : Fil
  btr : Nat
  br : Nat
  out : List Byte

/-- `fr_error`, with what a read that failed has left in the buffer. -/
def Reader.error (r : Reader) (spilt : List Byte) : Reading :=
  ⟨.rwError, r.out ++ spilt, r.br, { r.fil with flag := r.fil.flag ||| faError }⟩

/-- The update of the `for`, after `data` has been put into the buffer. -/
def Reader.advance (r : Reader) (rcnt : Nat) (data : List Byte) : Reader :=
  ⟨{ r.fil with fptr := (r.fil.fptr + rcnt) % 2 ^ 32 }, (r.btr + (2 ^ 16 - rcnt)) % 2 ^ 16,
    (r.br + rcnt) % 2 ^ 16, r.out ++ data⟩

/-- On the sector boundary: the next sector of the file, if there is one. -/
def nextSector (fp : Fil) : Comp (State δ) (Fil × Option Nat) := do
  let fp := { fp with sectClust := (fp.sectClust + 255) % 2 ^ 8 }
  if fp.sectClust ≠ 0 then pure (fp, some ((fp.currSect + 1) % 2 ^ 32))
  else do
    let clust ← if fp.fptr = 0 then pure fp.orgClust else getCluster drive fp.currClust
    let fs ← fatfs
    if clust < 2 ∨ clust ≥ fs.maxClust then pure (fp, none)
    else
      pure ({ fp with currClust := clust, sectClust := fs.sectsClust },
        some (clust2sect fs clust))

/-- The fractional bytes, from the buffer of the file. -/
def Reader.copy (r : Reader) : Reader :=
  let ofs := r.fil.fptr &&& 511
  let rcnt := 512 - (r.fil.fptr % 2 ^ 16 &&& 511)
  let rcnt := if rcnt > r.btr then r.btr else rcnt
  r.advance rcnt (slice r.fil.buffer ofs rcnt)

/-- The sectors that go directly into the buffer of the caller. -/
def readDirect (r : Reader) (sect cc : Nat) : Comp (State δ) (Reader ⊕ Reading) := do
  let fs ← fatfs
  let cc := if cc > r.fil.sectClust then r.fil.sectClust else cc
  let d ← below (drive.diskRead fs.drive sect cc)
  if d.1 ≠ .ok then pure (.inr (r.error d.2))
  else
    let fil :=
      { r.fil with
        -- `cc - 1` is an `int`
        sectClust := (r.fil.sectClust + 1 + (2 ^ 8 - cc)) % 2 ^ 8
        currSect := (r.fil.currSect + cc + (2 ^ 32 - 1)) % 2 ^ 32 }
    pure (.inl ({ r with fil := fil }.advance (cc * 512 % 2 ^ 16) d.2))

/-- A sector into the buffer of the file, and the bytes that are asked for from it. -/
def readBuffered (r : Reader) (sect : Nat) : Comp (State δ) (Reader ⊕ Reading) := do
  let fs ← fatfs
  let d ← below (drive.diskRead fs.drive sect 1)
  let r := { r with fil := { r.fil with buffer := overlay r.fil.buffer d.2 } }
  pure (if d.1 ≠ .ok then .inr (r.error []) else .inl r.copy)

def fReadRound (r : Reader) : Comp (State δ) (Reader ⊕ Reading) :=
  if r.btr = 0 then pure (.inr ⟨.ok, r.out, r.br, r.fil⟩)
  else if r.fil.fptr &&& 511 = 0 then do
    let (fil, sect) ← nextSector drive r.fil
    match sect with
    | none => pure (.inr ({ r with fil := fil }.error []))
    | some sect => do
      let r := { r with fil := { fil with currSect := sect } }
      let cc := r.btr / 512 % 2 ^ 8
      if cc ≠ 0 then readDirect drive r sect cc else readBuffered drive r sect
  else pure (.inl r.copy)

def fRead (fp : Fil) (btr : Nat) : Comp (State δ) Reading := do
  let res ← validate drive fp
  if res ≠ .ok then pure ⟨res, [], 0, fp⟩
  else if fp.flag &&& faError ≠ 0 then pure ⟨.rwError, [], 0, fp⟩
  else if fp.flag &&& faRead = 0 then pure ⟨.denied, [], 0, fp⟩
  else
    let remain := (fp.fsize + (2 ^ 32 - fp.fptr)) % 2 ^ 32
    let btr := if btr > remain then remain % 2 ^ 16 else btr
    Comp.loop (fReadRound drive) ⟨fp, btr, 0, []⟩

def fClose (fp : Fil) : Comp (State δ) (Fresult × Fil) := do
  let res ← validate drive fp
  pure (res, if res = .ok then { fp with fs := false } else fp)

/-- The cluster of the position that is looked for, and the rest of the offset; `none` is an error.
-/
def skipRound (csize : Nat) : Fil × Nat × Nat →
    Comp (State δ) ((Fil × Nat × Nat) ⊕ (Fil × Option (Nat × Nat)))
  | (fp, clust, ofs) => do
    let fp := { fp with currClust := clust }
    if ofs ≤ csize then pure (.inr (fp, some (clust, ofs)))
    else do
      let clust ← getCluster drive clust
      let fs ← fatfs
      if clust = 0 then pure (.inr (fp, some (clust, csize)))
      else if clust = 1 ∨ clust ≥ fs.maxClust then pure (.inr (fp, none))
      else
        pure (.inl ({ fp with fptr := (fp.fptr + csize) % 2 ^ 32 }, clust,
          (ofs + (2 ^ 32 - csize)) % 2 ^ 32))

def seekTo (fp : Fil) (clust ofs : Nat) : Comp (State δ) (Fresult × Fil) := do
  let fs ← fatfs
  let csect := (ofs + (2 ^ 32 - 1)) % 2 ^ 32 / 512 % 2 ^ 8
  let fp := { fp with currSect := (clust2sect fs clust + csect) % 2 ^ 32 }
  let moved (fp : Fil) : Fil :=
    { fp with
      sectClust := (fs.sectsClust + (2 ^ 8 - csect)) % 2 ^ 8
      fptr := (fp.fptr + ofs) % 2 ^ 32 }
  if ofs &&& 511 ≠ 0 then do
    let d ← below (drive.diskRead fs.drive fp.currSect 1)
    let fp := { fp with buffer := overlay fp.buffer d.2 }
    if d.1 ≠ .ok then pure (.rwError, { fp with flag := fp.flag ||| faError })
    else pure (.ok, moved fp)
  else pure (.ok, moved fp)

def fLseek (fp : Fil) (ofs : Nat) : Comp (State δ) (Fresult × Fil) := do
  let res ← validate drive fp
  if res ≠ .ok then pure (res, fp)
  else if fp.flag &&& faError ≠ 0 then pure (.rwError, fp)
  else do
    let ofs := if ofs > fp.fsize then fp.fsize else ofs
    let fp := { fp with fptr := 0, sectClust := 1 }
    if ofs ≠ 0 ∧ fp.orgClust ≠ 0 then do
      let fs ← fatfs
      let (fp, target) ← Comp.loop (skipRound drive (fs.sectsClust * 512)) (fp, fp.orgClust, ofs)
      match target with
      | none => pure (.rwError, { fp with flag := fp.flag ||| faError })
      | some (clust, ofs) => seekTo drive fp clust ofs
    else pure (.ok, fp)

end Code

end FatFs

end Xtc
