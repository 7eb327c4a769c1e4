import Mathlib.Tactic

/-!
# Ram — a dual-port synchronous memory that reads first

In a clock an enabled port puts the word it addresses on its output and writes over it.  What is
read is the word before the clock, whichever port writes it.
-/

namespace Ram

variable {κ ω : Type*}

structure Port (κ ω : Type*) where
  en : Bool
  addr : κ
  -- what is written over the word; `id` in a port that only reads
  upd : ω → ω

def Port.read (p : Port κ ω) (mem : κ → ω) (out : ω) : ω := if p.en then mem p.addr else out

variable [DecidableEq κ]

def Port.write (p : Port κ ω) (mem : κ → ω) : κ → ω := fun k =>
  if p.en ∧ k = p.addr then p.upd (mem k) else mem k

/-- The two ports of a clock; no clock may write one word from both. -/
def next (a b : Port κ ω) (mem : κ → ω) : κ → ω := b.write (a.write mem)

theorem Port.write_of_off {p : Port κ ω} (h : p.en = false) (mem : κ → ω) : p.write mem = mem := by
  funext k
  simp [Port.write, h]

theorem Port.write_of_id {p : Port κ ω} (h : p.upd = id) (mem : κ → ω) : p.write mem = mem := by
  funext k
  simp [Port.write, h]

theorem Port.write_of_on {p : Port κ ω} (h : p.en = true) (mem : κ → ω) :
    p.write mem = Function.update mem p.addr (p.upd (mem p.addr)) := by
  funext k
  by_cases hk : k = p.addr
  · subst hk
    simp [Port.write, h]
  · simp [Port.write, hk]

end Ram
