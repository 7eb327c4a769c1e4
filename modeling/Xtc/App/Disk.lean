import Xtc.Lib.Bits
import Xtc.Lib.Comp

/-!
# Disk — the SD card behind the SPI port, `disk.c`

The card is any machine that sees its select line and the bytes sent to it and answers every byte
with one of its own; the clock is any sequence of times that does not go back, of which `millis`
shows the low 32 bits.  The loops that wait for either of them may run forever.  What is printed
for debugging is left out.
-/

namespace Xtc

namespace Disk

open Bits (Byte)

/-- The times, in milliseconds, at which the clock is looked at. -/
structure Clock where
  ms : Nat → Nat
  advances : Monotone ms

def Clock.reading (clock : Clock) (k : Nat) : BitVec 32 := BitVec.ofNat 32 (clock.ms k)

structure Card (κ : Type) where
  select : Bool → κ → κ
  transfer : Byte → κ → Byte × κ

/-- The card and what `disk.c` keeps: `ticks` looks at the clock have been taken, `heard` are the
bytes that came from the card, the last one first. -/
structure Machine (κ : Type) where
  card : κ
  ticks : Nat
  heard : List Byte
  stat : BitVec 32
  cardType : Byte
  deriving DecidableEq

section Moves

variable {κ : Type} (s : Machine κ)

def Machine.tick : Machine κ := { s with ticks := s.ticks + 1 }

/-- After a byte has gone to the card and one has come back. -/
def Machine.exchange (card : Card κ) (dat : Byte) : Machine κ :=
  { s with
    card := (card.transfer dat s.card).2
    heard := (card.transfer dat s.card).1 :: s.heard }

end Moves

/-! ## Commands and flags -/

def cmd0 : Byte := 0
def cmd1 : Byte := 1
def acmd41 : Byte := 0x80 + 41
def cmd8 : Byte := 8
def cmd12 : Byte := 12
def cmd16 : Byte := 16
def cmd55 : Byte := 55
def cmd58 : Byte := 58

def ctMmc : Byte := 0x01
def ctSd1 : Byte := 0x02
def ctSd2 : Byte := 0x04
def ctBlock : Byte := 0x08

def staNoinit : BitVec 32 := 0x01
def staNodisk : BitVec 32 := 0x02
def staProtect : BitVec 32 := 0x04

/-! ## The port -/

section Port

variable {κ : Type} (clock : Clock) (card : Card κ)

def millis : Comp (Machine κ) (BitVec 32) := .act fun s => (clock.reading s.ticks, s.tick)

def spiSelect (high : Bool) : Comp (Machine κ) Unit :=
  .act fun s => ((), { s with card := card.select high s.card })

def xchgSpi (dat : Byte) : Comp (Machine κ) Byte :=
  .act fun s => ((card.transfer dat s.card).1, s.exchange card dat)

def whileClock (again : BitVec 32 → Bool) : Comp (Machine κ) Unit :=
  Comp.loop (fun _ => do
    let now ← millis clock
    pure (if again now then .inl () else .inr ())) ()

/-- `usleep` of `zposix.c`. -/
def usleep (usec : BitVec 32) : Comp (Machine κ) Int := do
  let start ← millis clock
  let stop := start + usec / 1000
  if start > stop then do
    whileClock clock fun now => now > stop
    pure 0
  else do
    whileClock clock fun now => now < stop
    pure 0

/-- One round of the loop of `wait_ready`, with the byte that ends it. -/
def waitRound (timeout : BitVec 32) : Comp (Machine κ) (Unit ⊕ Byte) := do
  let d ← xchgSpi card 0xFF
  if d ≠ 0xFF then do
    let now ← millis clock
    pure (if now < timeout then .inl () else .inr d)
  else pure (.inr d)

def waitReady (wt : BitVec 32) : Comp (Machine κ) Bool := do
  let now ← millis clock
  let timeout := now + wt
  let d ← Comp.loop (fun _ => waitRound clock card timeout) ()
  pure (d == 0xFF)

def deselect : Comp (Machine κ) Unit := do
  spiSelect card true
  let _ ← xchgSpi card 0xFF
  pure ()

def select : Comp (Machine κ) Bool := do
  spiSelect card false
  let _ ← xchgSpi card 0xFF
  let ready ← waitReady clock card 500
  if ready then pure true
  else do
    deselect card
    pure false

/-! ## Commands -/

/-- Select the card and wait for ready except to stop multiple block read. -/
def selectFor (cmd : Byte) : Comp (Machine κ) Bool :=
  if cmd ≠ cmd12 then do
    deselect card
    select clock card
  else pure true

/-- The response, with at most `n` more bytes to look at behind the next. -/
def receive : Nat → Comp (Machine κ) Byte
  | 0 => xchgSpi card 0xFF
  | n + 1 => do
    let res ← xchgSpi card 0xFF
    if res &&& 0x80 ≠ 0 then receive n else pure res

/-- The last byte of the packet: a CRC where the card looks at it. -/
def crc (cmd : Byte) : Byte := if cmd = cmd0 then 0x95 else if cmd = cmd8 then 0x87 else 0x01

/-- The packet of a command and the response to it. -/
def packet (cmd : Byte) (arg : BitVec 32) : Comp (Machine κ) Byte := do
  let _ ← xchgSpi card (0x40 ||| cmd)
  let _ ← xchgSpi card ((arg >>> 24).setWidth 8)
  let _ ← xchgSpi card ((arg >>> 16).setWidth 8)
  let _ ← xchgSpi card ((arg >>> 8).setWidth 8)
  let _ ← xchgSpi card (arg.setWidth 8)
  let _ ← xchgSpi card (crc cmd)
  if cmd = cmd12 then do
    let _ ← xchgSpi card 0xFF
    receive card 9
  else receive card 9

/-- `send_cmd` for a command without the bit that asks for `CMD55` in front. -/
def sendPlain (cmd : Byte) (arg : BitVec 32) : Comp (Machine κ) Byte := do
  let ready ← selectFor clock card cmd
  if ready then packet card cmd arg else pure 0xFF

def sendCmd (cmd : Byte) (arg : BitVec 32) : Comp (Machine κ) Byte :=
  if cmd &&& 0x80 ≠ 0 then do
    let res ← sendPlain clock card cmd55 0
    if res > 1 then pure res else sendPlain clock card (cmd &&& 0x7F) arg
  else sendPlain clock card cmd arg

/-! ## Initialisation -/

def initSpi : Comp (Machine κ) Unit := do
  spiSelect card true
  let _ ← usleep clock 10000
  pure ()

/-- Without a pin for it, the card is there and may be written. -/
def tmFatfsDetect : Bool := true
def tmFatfsWriteEnabled : Bool := true

def dummyClocks : Nat → Comp (Machine κ) Unit
  | 0 => pure ()
  | n + 1 => do
    let _ ← xchgSpi card 0xFF
    dummyClocks n

/-- The four bytes behind a response. -/
def receiveOcr : Comp (Machine κ) (Vector Byte 4) := do
  let a ← xchgSpi card 0xFF
  let b ← xchgSpi card 0xFF
  let c ← xchgSpi card 0xFF
  let d ← xchgSpi card 0xFF
  pure #v[a, b, c, d]

/-- `CMD8` comes back with the voltage and the pattern that were sent. -/
def Echoed (ocr : Vector Byte 4) : Prop := ocr[2] = 0x01 ∧ ocr[3] = 0xAA

instance (ocr : Vector Byte 4) : Decidable (Echoed ocr) := inferInstanceAs (Decidable (_ ∧ _))

/-- `while ((millis()<timeout) && send_cmd(cmd, arg));` -/
def waitIdleRound (cmd : Byte) (arg timeout : BitVec 32) : Comp (Machine κ) (Unit ⊕ Unit) := do
  let now ← millis clock
  if now < timeout then do
    let res ← sendCmd clock card cmd arg
    pure (if res ≠ 0 then .inl () else .inr ())
  else pure (.inr ())

def waitIdle (cmd : Byte) (arg timeout : BitVec 32) : Comp (Machine κ) Unit :=
  Comp.loop (fun _ => waitIdleRound clock card cmd arg timeout) ()

/-- The branch for an SDv2 card; `ty` is zero where the card fails. -/
def initSd2 (timeout : BitVec 32) : Comp (Machine κ) Byte := do
  let ocr ← receiveOcr card
  if Echoed ocr then do
    waitIdle clock card acmd41 (1 <<< 30) timeout
    let now ← millis clock
    if now < timeout then do
      let res ← sendCmd clock card cmd58 0
      if res = 0 then do
        let ocr ← receiveOcr card
        pure (if ocr[0] &&& 0x40 ≠ 0 then ctSd2 ||| ctBlock else ctSd2)
      else pure 0
    else pure 0
  else pure 0

/-- The branch for the other cards. -/
def initSd1 (timeout : BitVec 32) : Comp (Machine κ) Byte := do
  let res ← sendCmd clock card acmd41 0
  let ty := if res ≤ 1 then ctSd1 else ctMmc
  let cmd := if res ≤ 1 then acmd41 else cmd1
  waitIdle clock card cmd 0 timeout
  let now ← millis clock
  if now < timeout then pure 0
  else do
    let res ← sendCmd clock card cmd16 512
    pure (if res ≠ 0 then 0 else ty)

def initCard : Comp (Machine κ) Byte := do
  let res ← sendCmd clock card cmd0 0
  if res = 1 then do
    let now ← millis clock
    let timeout := now + 1000
    let res ← sendCmd clock card cmd8 0x1AA
    if res = 1 then initSd2 clock card timeout else initSd1 clock card timeout
  else pure 0

/-- What is noted about the card at the end. -/
def note (ty : Byte) : Comp (Machine κ) Byte :=
  .act fun s =>
    let stat := if ty ≠ 0 then s.stat &&& ~~~staNoinit else staNoinit
    let stat := if !tmFatfsWriteEnabled then stat ||| staProtect else stat &&& ~~~staProtect
    (stat.setWidth 8, { s with stat })

def recordType (ty : Byte) : Comp (Machine κ) Unit := .act fun s => ((), { s with cardType := ty })

def sdDiskInitialize : Comp (Machine κ) Byte := do
  initSpi clock card
  if !tmFatfsDetect then pure (staNodisk.setWidth 8)
  else do
    dummyClocks card 10
    let ty ← initCard clock card
    recordType ty
    deselect card
    note ty

end Port

end Disk

end Xtc
