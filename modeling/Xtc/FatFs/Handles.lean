import Xtc.FatFs.Seek
import Xtc.Lib.Trace

/-!
# Handles — files that are open at the same time

A program keeps a file object for each file it has open, and all of them share the window of the
volume and the drive.  Each object nevertheless behaves as a file of its own: whatever the order of
the calls, a read gives the bytes behind the last position of that object.
-/

namespace Xtc

namespace FatFs

open Bits (Byte)
open Ffwrap (Fresult)

/-! ## The calls -/

structure Session (δ : Type) where
  volume : State δ
  files : Nat → Fil

inductive Op
  | read (btr : BitVec 16)
  | lseek (ofs : BitVec 32)
  | close
  deriving DecidableEq

/-- What a call gives back; only a read uses the buffer and `*br`. -/
structure Reply where
  result : Fresult
  data : List Byte
  br : Nat

section Calls

variable {δ : Type} (drive : Drive δ)

def opOn (fp : Fil) : Op → Comp (State δ) (Reply × Fil)
  | .read btr => do
    let q ← fRead drive fp btr.toNat
    pure (⟨q.result, q.data, q.br⟩, q.fil)
  | .lseek ofs => do
    let r ← fLseek drive fp ofs.toNat
    pure (⟨r.1, [], 0⟩, r.2)
  | .close => do
    let r ← fClose drive fp
    pure (⟨r.1, [], 0⟩, r.2)

def call (c : Nat × Op) : Comp (Session δ) Reply := do
  let fp ← .act fun s => (s.files c.1, s)
  let r ← (opOn drive fp c.2).on Session.volume fun m s => { s with volume := m }
  .act fun s => (r.1, { s with files := Function.update s.files c.1 r.2 })

end Calls

/-! ## What they stand for -/

/-- What a file object is for its user. -/
inductive Handle
  | closed
  | opened (file : Extent) (pos : Nat)
  | broken

section Meaning

variable (vol : Fatfs) (img : Image) (healthy : Prop)

/-- The replies a handle may give.  Only a drive that is not healthy breaks one. -/
inductive Handle.Step : Handle → Op → Reply → Handle → Prop
  | read {e : Extent} {pos n : Nat} {btr : BitVec 16} (hn : n = min btr.toNat (e.size - pos)) :
      Step (.opened e pos) (.read btr) ⟨.ok, e.bytes vol img pos n, n⟩ (.opened e (pos + n))
  | readFails {e : Extent} {pos br : Nat} {btr : BitVec 16} {spilt : List Byte} (hbad : ¬ healthy)
      (hlength : br + spilt.length ≤ min btr.toNat (e.size - pos)) :
      Step (.opened e pos) (.read btr) ⟨.rwError, e.bytes vol img pos br ++ spilt, br⟩ .broken
  | lseek {e : Extent} {pos : Nat} {ofs : BitVec 32} :
      Step (.opened e pos) (.lseek ofs) ⟨.ok, [], 0⟩ (.opened e (min ofs.toNat e.size))
  | lseekFails {e : Extent} {pos : Nat} {ofs : BitVec 32} (hbad : ¬ healthy) :
      Step (.opened e pos) (.lseek ofs) ⟨.rwError, [], 0⟩ .broken
  | close {e : Extent} {pos : Nat} : Step (.opened e pos) .close ⟨.ok, [], 0⟩ .closed
  | closeBroken : Step .broken .close ⟨.ok, [], 0⟩ .closed
  | broken {op : Op} (hop : op ≠ .close) : Step .broken op ⟨.rwError, [], 0⟩ .broken
  | closed {op : Op} : Step .closed op ⟨.invalidObject, [], 0⟩ .closed

/-- A call is a step of its handle, and of no other. -/
def Serves (files : Nat → Handle) (c : Nat × Op) (r : Reply) (files' : Nat → Handle) : Prop :=
  ∃ h, (files c.1).Step vol img healthy c.2 r h ∧ files' = Function.update files c.1 h

def Handle.Stands : Handle → Fil → Prop
  | .closed, fp => fp.fs = false
  | .opened e pos, fp => fp.At vol img e pos
  | .broken, fp => fp.Broken vol

structure Session.Keeps {δ : Type} (up : δ → Prop) (files : Nat → Handle) (s : Session δ) :
    Prop where
  mounted : Mounted img up vol s.volume
  files : ∀ k, (files k).Stands vol img (s.files k)

end Meaning

section Calls

variable {δ : Type} {drive : Drive δ} {img : Image} {up : δ → Prop} {healthy : Prop}
  {vol : Fatfs} {s : State δ} {e : Extent} {fp : Fil} {pos : Nat} {op : Op}

theorem validate_closed (hm : Mounted img up vol s) (h : fp.fs = false) :
    (validate drive fp).Ensures s fun res s' => res = .invalidObject ∧ Mounted img up vol s' := by
  simp only [validate, Comp.ensures_bind, ensures_fatfs]
  rw [if_pos (.inl h), Comp.ensures_pure]
  exact ⟨rfl, hm⟩

theorem opOn_closed (hm : Mounted img up vol s) (h : fp.fs = false) :
    (opOn drive fp op).Ensures s fun r s' => Mounted img up vol s' ∧
      r = (⟨.invalidObject, [], 0⟩, fp) := by
  cases op with
  | read btr =>
    simp only [opOn, fRead, Comp.ensures_bind]
    refine (validate_closed hm h).imp ?_
    rintro res s' ⟨rfl, hm'⟩
    rw [if_pos (by decide)]
    simpa only [Comp.ensures_pure, and_true] using hm'
  | lseek ofs =>
    simp only [opOn, fLseek, Comp.ensures_bind]
    refine (validate_closed hm h).imp ?_
    rintro res s' ⟨rfl, hm'⟩
    rw [if_pos (by decide)]
    simpa only [Comp.ensures_pure, and_true] using hm'
  | close =>
    simp only [opOn, fClose, Comp.ensures_bind]
    refine (validate_closed hm h).imp ?_
    rintro res s' ⟨rfl, hm'⟩
    simp only [Comp.ensures_pure]
    exact ⟨hm', rfl⟩

theorem opOn_close (hdrive : drive.Holds img up healthy) (hm : Mounted img up vol s)
    (hfs : fp.fs = true) (hid : fp.id = vol.id) :
    (opOn drive fp .close).Ensures s fun r s' => Mounted img up vol s' ∧
      r = (⟨.ok, [], 0⟩, { fp with fs := false }) := by
  simp only [opOn, fClose, Comp.ensures_bind]
  refine (validate_ensures hdrive hm hfs hid).imp ?_
  rintro res s' ⟨rfl, hm'⟩
  simp only [Comp.ensures_pure]
  exact ⟨hm', rfl⟩

theorem opOn_broken (hdrive : drive.Holds img up healthy) (hm : Mounted img up vol s)
    (h : fp.Broken vol) (hop : op ≠ .close) :
    (opOn drive fp op).Ensures s fun r s' => Mounted img up vol s' ∧
      r = (⟨.rwError, [], 0⟩, fp) := by
  cases op with
  | read btr =>
    simp only [opOn, fRead, Comp.ensures_bind]
    refine (validate_ensures hdrive hm h.fs h.id).imp ?_
    rintro res s' ⟨rfl, hm'⟩
    rw [if_neg (by decide), if_pos h.flag]
    simpa only [Comp.ensures_pure, and_true] using hm'
  | lseek ofs =>
    simp only [opOn, fLseek, Comp.ensures_bind]
    refine (validate_ensures hdrive hm h.fs h.id).imp ?_
    rintro res s' ⟨rfl, hm'⟩
    rw [if_neg (by decide), if_pos h.flag]
    simpa only [Comp.ensures_pure, and_true] using hm'
  | close => exact absurd rfl hop

theorem opOn_opened (hdrive : drive.Holds img up healthy) (hwf : vol.WellFormed)
    (hm : Mounted img up vol s) (hat : fp.At vol img e pos) :
    (opOn drive fp op).Ensures s fun r s' => Mounted img up vol s' ∧
      ∃ h, (Handle.opened e pos).Step vol img healthy op r.1 h ∧ h.Stands vol img r.2 := by
  cases op with
  | read btr =>
    simp only [opOn, Comp.ensures_bind]
    refine (fRead_ensures hdrive hwf hm hat btr.isLt).imp ?_
    rintro q s' ⟨hm', hq⟩
    rw [Comp.ensures_pure]
    refine ⟨hm', ?_⟩
    cases hq with
    | all h => exact ⟨_, .read rfl, h⟩
    | failed hbad hlength h => exact ⟨_, .readFails hbad hlength, h⟩
  | lseek ofs =>
    simp only [opOn, Comp.ensures_bind]
    refine (fLseek_ensures hdrive hwf hm hat ofs.toNat).imp ?_
    rintro ⟨res, fil⟩ s' ⟨hm', ⟨hres, h⟩ | ⟨hres, hbad, h⟩⟩
    · obtain rfl : res = .ok := hres
      exact Comp.ensures_pure.mpr ⟨hm', _, .lseek, h⟩
    · obtain rfl : res = .rwError := hres
      exact Comp.ensures_pure.mpr ⟨hm', _, .lseekFails hbad, h⟩
  | close =>
    refine (opOn_close hdrive hm hat.fs hat.id).imp ?_
    rintro r s' ⟨hm', rfl⟩
    exact ⟨hm', _, .close, rfl⟩

/-- A call with an object is a step of its handle. -/
theorem opOn_ensures (hdrive : drive.Holds img up healthy) (hwf : vol.WellFormed)
    (hm : Mounted img up vol s) {h : Handle} (hfp : h.Stands vol img fp) :
    (opOn drive fp op).Ensures s fun r s' => Mounted img up vol s' ∧
      ∃ h', h.Step vol img healthy op r.1 h' ∧ h'.Stands vol img r.2 := by
  cases h with
  | closed =>
    refine (opOn_closed hm hfp).imp ?_
    rintro r s' ⟨hm', rfl⟩
    exact ⟨hm', _, .closed, hfp⟩
  | opened e pos => exact opOn_opened hdrive hwf hm hfp
  | broken =>
    by_cases hop : op = .close
    · subst hop
      refine (opOn_close hdrive hm (Fil.Broken.fs hfp) (Fil.Broken.id hfp)).imp ?_
      rintro r s' ⟨hm', rfl⟩
      exact ⟨hm', _, .closeBroken, rfl⟩
    · refine (opOn_broken hdrive hm hfp hop).imp ?_
      rintro r s' ⟨hm', rfl⟩
      exact ⟨hm', _, .broken hop, hfp⟩

theorem call_ensures (hdrive : drive.Holds img up healthy) (hwf : vol.WellFormed)
    (files : Nat → Handle) (c : Nat × Op) (s : Session δ) (h : s.Keeps vol img up files) :
    (call drive c).Ensures s fun r s' =>
      ∃ files', Serves vol img healthy files c r files' ∧ s'.Keeps vol img up files' := by
  simp only [call, Comp.ensures_bind, Comp.ensures_act, Comp.ensures_on]
  refine (opOn_ensures hdrive hwf h.mounted (h.files c.1)).imp ?_
  rintro ⟨r, fil⟩ m ⟨hm, h', hstep, hfil⟩
  refine ⟨_, ⟨h', hstep, rfl⟩, hm, fun k => ?_⟩
  rcases eq_or_ne k c.1 with rfl | hk
  · simpa only [Function.update_self] using hfil
  · simpa only [Function.update_of_ne hk] using h.files k

/-- Whatever calls a program makes with the files it has open, in whatever order, all of them come
back, and every reply is that of its handle. -/
theorem calls_served (hdrive : drive.Holds img up healthy) (hwf : vol.WellFormed)
    {files : Nat → Handle} {s : Session δ} (h : s.Keeps vol img up files)
    (calls : List (Nat × Op)) :
    (Comp.trace (call drive) calls).Ensures s fun tr s' => tr.map Prod.fst = calls ∧
      ∃ files', Linear.History (Serves vol img healthy) files tr files' ∧
        s'.Keeps vol img up files' :=
  Comp.ensures_trace (call_ensures hdrive hwf) calls h

end Calls

/-! A card with a file of three clusters and one of two, in different sectors of the table. -/

section Example

def steady (img : Image) : Drive Unit where
  diskStatus _ := pure 0
  diskRead _ sect count := pure (.ok, sectors img sect count)

theorem steady_holds (img : Image) : (steady img).Holds img (fun _ => True) True where
  status _ _ _ := Comp.ensures_pure.mpr ⟨trivial, by decide⟩
  read _ _ _ _ _ _ := Comp.ensures_pure.mpr ⟨trivial, fun _ => rfl, fun h => absurd rfl h⟩

def smallVolume : Fatfs :=
  { id := 1
    winsect := 0
    maxClust := 400
    fatbase := 1
    database := 4
    fsType := .fat12
    sectsClust := 1
    drive := 0
    win := fun _ => 0 }

theorem smallVolume_wellFormed : smallVolume.WellFormed := by
  constructor <;> decide

/-- The bytes of the table that are not zero, in entries of 12 bits: cluster 2 links to 4, 4 to 7,
and 341, whose entry is in two sectors, to 350. -/
def smallTable : List (Nat × Byte) :=
  [(3, 0x04), (6, 0x07), (10, 0xF0), (11, 0xFF), (511, 0xE0), (512, 0x15), (525, 0xFF), (526, 0x0F)]

def smallImage : Image := fun sect i =>
  if sect = 1 ∨ sect = 2 then (smallTable.lookup (512 * (sect - 1) + i)).getD 0
  else BitVec.ofNat 8 (sect + i)

def longFile : Extent := ⟨[2, 4, 7], 1200⟩

def shortFile : Extent := ⟨[341, 350], 700⟩

theorem longFile_onVolume : longFile.OnVolume smallVolume smallImage 2 where
  first := by decide
  valid := by
    show ∀ c ∈ [2, 4, 7], 2 ≤ c ∧ c < 400
    decide
  links := by decide
  size := by decide
  bound := by decide

theorem shortFile_onVolume : shortFile.OnVolume smallVolume smallImage 341 where
  first := by decide
  valid := by
    show ∀ c ∈ [341, 350], 2 ≤ c ∧ c < 400
    decide
  links := by decide
  size := by decide
  bound := by decide

/-- The object that `f_open` leaves for a file of `size` bytes that starts at cluster `org`. -/
def openedFil (size org : Nat) : Fil := ⟨1, faRead, 1, true, 0, size, org, 0, 0, fun _ => 0⟩

theorem openedFil_at {e : Extent} {org : Nat} (he : e.OnVolume smallVolume smallImage org) :
    (openedFil e.size org).At smallVolume smallImage e 0 where
  fs := rfl
  id := rfl
  good := by
    show faRead &&& faError = 0
    decide
  mode := by
    show faRead &&& faRead ≠ 0
    decide
  file := he
  fsize := rfl
  fptr := rfl
  bound := Nat.zero_le _
  first _ := rfl
  currSect h := absurd h (by decide)
  currClust h := absurd h (by decide)
  left h := absurd h (by decide)
  buffer h := absurd rfl h

def smallSession : Session Unit where
  volume := ⟨smallVolume, ()⟩
  files
    | 0 => openedFil longFile.size 2
    | 1 => openedFil shortFile.size 341
    | _ => { openedFil 0 0 with fs := false }

def smallHandles : Nat → Handle
  | 0 => .opened longFile 0
  | 1 => .opened shortFile 0
  | _ => .closed

theorem smallSession_keeps :
    smallSession.Keeps smallVolume smallImage (fun _ => True) smallHandles where
  mounted := ⟨trivial, rfl, fun h => absurd rfl h⟩
  files k := by
    rcases k with _ | _ | k
    · exact openedFil_at longFile_onVolume
    · exact openedFil_at shortFile_onVolume
    · rfl

/-- The second file takes the window to the other sector of the table, and the first one back. -/
def smallCalls : List (Nat × Op) :=
  [(0, .read 600), (1, .read 513), (0, .lseek 1100), (1, .lseek 20), (0, .read 200), (1, .read 680),
    (0, .close), (1, .lseek 600), (1, .read 10)]

theorem calls_served_small :
    (Comp.trace (call (steady smallImage)) smallCalls).Ensures smallSession fun tr s' =>
      tr.map Prod.fst = smallCalls ∧
        ∃ files', Linear.History (Serves smallVolume smallImage True) smallHandles tr files' ∧
          s'.Keeps smallVolume smallImage (fun _ => True) files' :=
  calls_served (steady_holds smallImage) smallVolume_wellFormed smallSession_keeps smallCalls

end Example

end FatFs

end Xtc
