import Xtc.Lib.Comp
import Xtc.Lib.Linear

/-!
# Trace — calls made one after the other, and what they amount to

A component answers calls by computations on its state.  If every call is a step of an abstract
machine that the state stands for, any sequence of calls is a history of that machine.
-/

namespace Comp

variable {σ ι α μ : Type}

def trace (call : ι → Comp σ α) : List ι → Comp σ (List (ι × α))
  | [] => pure []
  | i :: l => do
    let a ← call i
    let rest ← trace call l
    pure ((i, a) :: rest)

theorem ensures_trace {call : ι → Comp σ α} {effect : μ → ι → α → μ → Prop} {R : μ → σ → Prop}
    (hcall : ∀ m i s, R m s → (call i).Ensures s fun a s' => ∃ m', effect m i a m' ∧ R m' s')
    (calls : List ι) {m : μ} {s : σ} (h : R m s) :
    (trace call calls).Ensures s fun tr s' => tr.map Prod.fst = calls ∧
      ∃ m', Linear.History effect m tr m' ∧ R m' s' := by
  induction calls generalizing m s with
  | nil => exact ensures_pure.mpr ⟨rfl, m, .nil m, h⟩
  | cons i l ih =>
    rw [trace, ensures_bind]
    refine (hcall m i s h).imp ?_
    rintro a s' ⟨m', heffect, hR⟩
    rw [ensures_bind]
    refine (ih hR).imp ?_
    rintro rest s'' ⟨hmap, m'', hhistory, hR'⟩
    refine ensures_pure.mpr ⟨by rw [List.map_cons, hmap], m'', .cons heffect hhistory, hR'⟩

end Comp
