import Xtc.Lib.CString

/-!
# Zstdio — `vsnprintf` of the application library

The formatter of `zstdio.c` on a 32-bit machine.  A string is the list of its characters without the
NUL.  Every access to the buffer and to the two local arrays is logged with its index, and one that
is out of bounds goes on as if the memory around the array were free, so that the log is complete.
-/

namespace Xtc

namespace Zstdio

open CString (nul)

inductive Arg
  | int (n : BitVec 32)
  | str (s : List Char)
  deriving DecidableEq

inductive Access
  -- the caller's buffer, from `start` on
  | str (i : Nat)
  -- `char sizespec[4]` of `vsnprintf`
  | sizespec (i : Nat)
  -- `char temp[65]` of `__utoa`
  | temp (i : Int)
  deriving DecidableEq

structure Locals where
  -- the memory from `start` on
  buf : Nat → Char
  -- `str - start`
  str : Nat
  size : BitVec 32
  -- the first `spptr` characters
  sizespec : List Char
  isformat : Bool
  fill : Char
  ap : List Arg
  log : List Access

namespace Locals

def access (as : List Access) (v : Locals) : Locals := { v with log := v.log ++ as }

def store (c : Char) (v : Locals) : Locals :=
  { v with buf := Function.update v.buf v.str c, log := v.log ++ [.str v.str] }

def put (c : Char) (v : Locals) : Locals :=
  { v.store c with str := v.str + 1, size := v.size - 1 }

end Locals

/-! ## `__utoa` -/

structure Base where
  radix : Nat
  two_le : 1 < radix

def Base.ten : Base := ⟨10, by decide⟩

def Base.sixteen : Base := ⟨16, by decide⟩

def digitChar (upper : Char) (c : Nat) : Char :=
  if c < 10 then Char.ofNat (c + '0'.toNat) else Char.ofNat (c + upper.toNat - 10)

/-- The characters of `m` are put in front of `cs`. -/
def digits (base : Base) (upper : Char) (m : Nat) (cs : List Char) : List Char :=
  let i := m / base.radix
  let cs := digitChar upper (m - base.radix * i) :: cs
  if i = 0 then cs else digits base upper i cs
termination_by m
decreasing_by
  have hmore : m / base.radix ≠ 0 := by assumption
  apply Nat.div_lt_self _ base.two_le
  by_contra hm
  obtain rfl : m = 0 := by omega
  exact hmore (Nat.zero_div _)

/-- The characters stand at the end of `temp`, with the NUL behind them at index 65. -/
def copyBack : List Char → Locals → Locals
  | [], v => v.access [.temp 65]
  | c :: cs, v =>
      let v := v.access [.temp (64 - cs.length)]
      if c = nul ∨ v.size = 0 then v else copyBack cs (v.put c)

/-- The function `__utoa`, with the `size -=` of its caller. -/
def utoa (i : BitVec 32) (base : Base) (pad : Nat) (upper : Char) (v : Locals) : Locals :=
  if v.size < 1 then { v with size := v.size - v.size }
  else
    let cs := digits base upper i.toNat []
    let cs := List.replicate (pad - cs.length) v.fill ++ cs
    -- the NUL is written first, and the characters downwards from it
    copyBack cs (v.access ((List.range (cs.length + 1)).map fun j : Nat => .temp (65 - j)))

/-! ## `vsnprintf` -/

def atoi (s : List Char) : Nat := s.foldl (fun n c => 10 * n + (c.toNat - '0'.toNat)) 0

/-- The width, if one was read: a NUL is written behind its digits, and `atoi` reads them. -/
def takePad (v : Locals) : Nat × Locals :=
  if v.sizespec = [] then (0, v)
  else
    let accesses := (List.range (v.sizespec.length + 1)).map .sizespec
    (atoi v.sizespec, { v.access accesses with sizespec := [] })

def number (n : BitVec 32) (base : Base) (upper : Char) (v : Locals) : Locals :=
  let (pad, v) := takePad v
  utoa n base pad upper v

def signed (n : BitVec 32) (v : Locals) : Locals :=
  if n.slt 0 then number (-n) .ten 'A' (v.put '-') else number n .ten 'A' v

/-- The loop `while (size-- && *st) *str++ = *st++`. -/
def copyString : List Char → Locals → Locals
  | [], v => { v with size := v.size - 1 }
  | c :: st, v => if v.size = 0 then { v with size := v.size - 1 } else copyString st (v.put c)

/-- A digit behind the `%`. -/
def width (c : Char) (v : Locals) : Locals :=
  if c ≠ '0' ∨ v.sizespec ≠ [] then
    { v.access [.sizespec v.sizespec.length] with sizespec := v.sizespec ++ [c] }
  else { v with fill := c }

/-- The calls `va_arg(ap, int)` and `va_arg(ap, const char*)`. -/
def vaInt : List Arg → Option (BitVec 32 × List Arg)
  | .int n :: ap => some (n, ap)
  | _ => none

def vaStr : List Arg → Option (List Char × List Arg)
  | .str s :: ap => some (s, ap)
  | _ => none

def unsigned (base : Base) (upper : Char) (v : Locals) : Option Locals :=
  (vaInt v.ap).map fun (n, ap) => number n base upper { v with ap := ap, isformat := false }

/-- The loop body at a character of the format; `none` where `va_arg` has no such argument. -/
def step (c : Char) (v : Locals) : Option Locals :=
  if v.isformat then
    match c with
    | 'D' | 'd' => (vaInt v.ap).map fun (n, ap) => signed n { v with ap := ap, isformat := false }
    | 'x' => unsigned .sixteen 'a' v
    | 'X' => unsigned .sixteen 'A' v
    | 'U' | 'u' => unsigned .ten 'A' v
    | 's' => (vaStr v.ap).map fun (s, ap) => copyString s { v with ap := ap, isformat := false }
    | 'l' => some v
    | c => if c.isDigit then some (width c v) else some { v with isformat := false }
  else if c = '%' then some { v with isformat := true }
  else some ({ v with fill := ' ' }.put c)

def loop : List Char → Locals → Option Locals
  | [], v => some v
  | c :: format, v => if v.size = 0 then some v else (step c v).bind (loop format)

def vsnprintf (buf : Nat → Char) (size : BitVec 32) (format : List Char) (ap : List Arg) :
    Option Locals :=
  (loop format ⟨buf, 0, size - 1, [], false, nul, ap, []⟩).map (Locals.store nul)

/-- The result: `str - start`, as an `int`. -/
def Locals.returned (v : Locals) : Int := (BitVec.ofNat 32 v.str).toInt

end Zstdio

end Xtc
