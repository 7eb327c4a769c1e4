import Xtc.Lib.Cut
import Xtc.Linker.Emit
import Xtc.Linker.Value

/-!
# Layout — relaxing a whole section

`xtc_elf_relax_section` goes over the relocations of a section, narrows each site to the current
distance of its target and deletes the freed bytes, which moves every later symbol and site.  No
deletion makes a distance grow, so what fitted when a site was narrowed fits in the final layout.
-/

namespace Xtc.Linker

/-! ## The section -/

structure Relocation where
  rOffset : Nat
  rel : Reloc
  sym : Nat
  addend : Int

/-- A symbol table entry.  `home` is the section it is defined in when that is another one. -/
structure SymbolEntry where
  isGlobal : Bool
  isDefined : Bool
  isSection : Bool
  home : Option (SymbolSection Int)
  value : Nat

structure CodeSection where
  place : Placement Int
  size : Nat
  contents : Location
  relocs : List Relocation
  syms : Nat → SymbolEntry

namespace CodeSection

/-- The symbol a relocation is against; `none` for a global symbol that is not defined. -/
def symbol (s : CodeSection) (e : SymbolEntry) : Option (Symbol Int) :=
  let sec := e.home.getD ⟨s.place, none⟩
  if e.isGlobal then
    if e.isDefined then some (.ofGlobal e.value sec.place) else none
  else some (.ofLocal e.isSection e.value sec)

/-- `xtc_elf_relax_delete_bytes`.  Local and global symbols of the section are moved alike. -/
def xtcElfRelaxDeleteBytes (addr count : Nat) (s : CodeSection) : CodeSection :=
  let toaddr := s.size
  { s with
    size := s.size - count
    contents := fun i => if addr ≤ i ∧ i < toaddr - count then s.contents (i + count)
      else s.contents i
    relocs := s.relocs.map fun r =>
      if r.rOffset > addr ∧ r.rOffset < toaddr then { r with rOffset := r.rOffset - count } else r
    syms := fun k =>
      let e := s.syms k
      if e.home.isNone ∧ e.value > addr ∧ e.value ≤ toaddr then { e with value := e.value - count }
      else e }

/-- One round of the loop of `xtc_elf_relax_section`, on the relocation with index `k`; the flag
says whether it set `*again`.  `none` is an `abort()` inside. -/
def relaxReloc (k : Nat) (s : CodeSection) : Option (CodeSection × Bool) :=
  match s.relocs[k]? with
  | none => some (s, false)
  | some r =>
    match s.symbol (s.syms r.sym) with
    | none => some (s, false)
    | some sym => do
      let value ← relaxValue r.rel sym r.addend r.rOffset s.place
      let (newReloc, deleteBytes, location) ←
        xtcRelaxRelocation r.rel value fun i => s.contents (r.rOffset + i)
      let s := { s with
        contents := fun i => if i < r.rOffset then s.contents i else location (i - r.rOffset) }
      if deleteBytes ≠ 0 then
        let s := { s with relocs := s.relocs.set k { r with rel := newReloc } }
        return (s.xtcElfRelaxDeleteBytes r.rOffset deleteBytes, true)
      else
        return (s, false)

/-- The loops of several calls put together: any relocations, in any order. -/
def relaxRelocs : List Nat → CodeSection → Option (CodeSection × Bool)
  | [], s => some (s, false)
  | k :: ks, s => do
      let (s, deleted) ← relaxReloc k s
      let (s, again) ← relaxRelocs ks s
      return (s, deleted || again)

/-- `xtc_elf_relax_section` on a code section: the section after the pass, and `*again`. -/
def xtcElfRelaxSection (s : CodeSection) : Option (CodeSection × Bool) :=
  relaxRelocs (List.range s.relocs.length) s

def finalValue (s : CodeSection) (r : Relocation) : Option Int := do
  let sym ← s.symbol (s.syms r.sym)
  relocateValue r.rel sym r.addend r.rOffset s.place

end CodeSection

/-! ## One narrowing -/

namespace Reloc

def siteSize : Reloc → Nat
  | .i8R | .i8 => 2
  | .e8R | .e8 | .e8I8R | .e8I8 | .e24R | .e24 => 4
  | .e24I8R | .e24I8 => 6
  | .e24E8R | .e24E8 => 8
  | _ => 0

def takes (v : Int) : Reloc → Bool
  | .i8R | .i8 | .e8R | .e8 => xtcFitsImm v 8
  | .e8I8R | .e8I8 => xtcFitsImm v 16
  | .e24R | .e24 => xtcFitsImm v 24
  | .e24E8R | .e24E8 => xtcFitsImm v 32
  | _ => true

/-- The bytes a PC-relative form reserves before the value counts. -/
def reserve (rel : Reloc) : Int := (xtcRelocPcrelOffset rel).getD 0

/-- Where inside its own site a symbol can stand: on the instruction behind the prefix, and on what
is left of that place once the prefix has been narrowed. -/
def inner : Reloc → Option Nat
  | .e24I8R | .e24I8 | .e24E8R | .e24E8 => some 4
  | .e8I8R | .e8I8 => some 2
  | _ => Option.none

/-- The narrower form, the bytes it frees and the width it leaves. -/
def narrower : Reloc → Option (Reloc × Nat × Nat)
  | .e24E8R => some (.e8R, 4, 8)
  | .e24E8 => some (.e8, 4, 8)
  | .e24I8R => some (.e8I8R, 2, 16)
  | .e24I8 => some (.e8I8, 2, 16)
  | .e8R | .e8 => some (.none, 2, 0)
  | .e8I8R => some (.i8R, 2, 8)
  | .e8I8 => some (.i8, 2, 8)
  | _ => Option.none

end Reloc

theorem xtcEmitRelocationAt_takes {rel : Reloc} {v : Int} (h : rel.takes v = true) (dest : Nat)
    (m : Location) : ((xtcEmitRelocationAt rel v dest).run m).1 = 0 := by
  rw [xtcEmitRelocationAt_run]
  cases rel <;> simp_all [Reloc.takes, xtcEmitRelocation]

theorem newRelocIf_some {s s' : Relaxation} {bits removed : Nat} {newrel : Reloc}
    {adjust va : Int} {algo : Location → Nat → Location}
    (h : newRelocIf s bits newrel removed adjust va algo = some s') :
    xtcFitsImm (xtcAdjustedRel s.value adjust) bits = true ∧ s'.rel = newrel ∧
      s'.bytes = s.bytes + removed ∧
      s'.value = if xtcRelocPcrel newrel then xtcAdjustedRel s.value va else s.value := by
  unfold newRelocIf at h
  split at h
  · cases h
    exact ⟨by assumption, rfl, rfl, rfl⟩
  · cases h

theorem relaxRound_narrower {s s' : Relaxation} (h : relaxRound s = some (some s')) :
    ∃ n w, s.rel.narrower = some (s'.rel, n, w) ∧ s'.bytes = s.bytes + n ∧
      xtcFitsImm (xtcAdjustedRel s.value (pcrelAdjust s.rel n)) w = true ∧
      s'.value = if xtcRelocPcrel s'.rel then xtcAdjustedRel s.value n else s.value := by
  obtain ⟨rel, v, b, m⟩ := s
  cases rel <;> simp only [relaxRound, Option.some.injEq, reduceCtorEq] at h
  case e24 | e24R => split at h <;> simp at h
  case e24E8 | e24E8R | e24I8 | e24I8R =>
    obtain ⟨hfits, hrel, hbytes, hvalue⟩ := newRelocIf_some h
    exact ⟨_, _, by rw [hrel]; rfl, hbytes, hfits, by rw [hvalue, hrel]; rfl⟩
  case e8 | e8R | e8I8 | e8I8R =>
    split at h
    · obtain ⟨hfits, hrel, hbytes, hvalue⟩ := newRelocIf_some h
      exact ⟨_, _, by rw [hrel]; rfl, hbytes, hfits, by rw [hvalue, hrel]; rfl⟩
    · cases h

theorem relaxLoop_cases {s t : Relaxation} (h : relaxLoop s = some t) :
    t = s ∨ ∃ s', relaxRound s = some (some s') ∧ relaxLoop s' = some t := by
  rw [relaxLoop] at h
  split at h
  · cases h
  · exact .inl (Option.some.inj h).symm
  · exact .inr ⟨_, by assumption, h⟩

/-- What a call that frees `n` bytes has checked.  A distance counted backwards is shortened by the
bytes that go. -/
structure Narrows (rel : Reloc) (v : Int) (rel' : Reloc) (n : Nat) : Prop where
  filled : rel.isFilled = true
  form : rel' = .none ∨ rel'.isFilled = true
  pos : 0 < n
  room : n < rel.siteSize
  size : rel'.siteSize + n ≤ rel.siteSize
  pcrel : rel'.isFilled = true → xtcRelocPcrel rel' = xtcRelocPcrel rel
  reserve : rel'.isFilled = true → xtcRelocPcrel rel = true → rel.reserve = rel'.reserve + n
  inner : rel'.isFilled = true → ∀ d, rel.inner = some d →
    n = d ∨ n < d ∧ rel'.inner = some (d - n)
  ahead : xtcRelocPcrel rel = false ∨ 0 ≤ v → rel'.takes v = true
  behind : xtcRelocPcrel rel = true → v ≤ -rel.reserve → rel'.takes (v + n) = true

theorem xtcAdjustedRel_of_nonneg {v k : Int} (h : 0 ≤ v) : xtcAdjustedRel v k = v :=
  if_neg (by omega)

theorem xtcAdjustedRel_of_neg {v k : Int} (h : v < 0) : xtcAdjustedRel v k = v + k := if_pos h

theorem xtcAdjustedRel_zero (v : Int) : xtcAdjustedRel v 0 = v := by
  unfold xtcAdjustedRel
  split <;> omega

theorem Reloc.takes_of_narrower {rel rel' : Reloc} {n w : Nat} {v : Int}
    (h : rel.narrower = some (rel', n, w)) (hfits : xtcFitsImm v w = true) :
    rel'.takes v = true := by
  cases rel <;> simp only [narrower, Option.some.injEq, Prod.mk.injEq, reduceCtorEq] at h <;>
    obtain ⟨rfl, -, rfl⟩ := h <;> first | exact hfits | rfl

theorem Reloc.reserve_pos {rel : Reloc} (h : xtcRelocPcrel rel = true) : 0 < rel.reserve := by
  cases rel <;> first | decide | cases h

theorem Reloc.siteSize_pos {rel : Reloc} (h : rel.isFilled = true) : 0 < rel.siteSize := by
  cases rel <;> first | decide | cases h

theorem Reloc.reserve_le {rel : Reloc} : rel.reserve ≤ rel.siteSize := by
  cases rel <;> decide

theorem Reloc.reserve_inner {rel : Reloc} {d : Nat} (hp : xtcRelocPcrel rel = true)
    (h : rel.inner = some d) : rel.reserve = d + 2 := by
  cases rel <;> simp only [inner, Option.some.injEq, reduceCtorEq] at h <;> subst h <;>
    first | rfl | cases hp

theorem Reloc.inner_pos {rel : Reloc} {d : Nat} (h : rel.inner = some d) :
    0 < d ∧ d < rel.siteSize := by
  cases rel <;> simp only [inner, Option.some.injEq, reduceCtorEq] at h <;> subst h <;> decide

/-- Every form takes a branch to the instruction behind its own prefix. -/
theorem Reloc.takes_inner (rel : Reloc) : rel.takes (-2) = true := by
  cases rel <;> decide

/-- One round of the retry loop. -/
theorem Narrows.round {rel rel' : Reloc} {v : Int} {n w : Nat}
    (h : rel.narrower = some (rel', n, w))
    (hfits : xtcFitsImm (xtcAdjustedRel v (pcrelAdjust rel n)) w = true) :
    Narrows rel v rel' n := by
  have hahead : xtcRelocPcrel rel = false ∨ 0 ≤ v → rel'.takes v = true := by
    intro hv
    have hadj : xtcAdjustedRel v (pcrelAdjust rel n) = v := by
      obtain hp | hv := hv
      · rw [pcrelAdjust, hp]
        exact xtcAdjustedRel_zero v
      · exact xtcAdjustedRel_of_nonneg hv
    exact Reloc.takes_of_narrower h (hadj ▸ hfits)
  have hbehind : xtcRelocPcrel rel = true → v ≤ -rel.reserve → rel'.takes (v + n) = true := by
    intro hp hv
    have hpos := Reloc.reserve_pos hp
    rw [pcrelAdjust, hp, if_pos rfl, xtcAdjustedRel_of_neg (by omega)] at hfits
    exact Reloc.takes_of_narrower h hfits
  cases rel <;> simp only [Reloc.narrower, Option.some.injEq, Prod.mk.injEq, reduceCtorEq] at h
  all_goals
    obtain ⟨rfl, rfl, rfl⟩ := h
    exact ⟨rfl, by decide, by decide, by decide, by decide, by decide, by decide, by decide, hahead,
      hbehind⟩

theorem Narrows.twice {rel₁ rel₂ rel₃ : Reloc} {v v' : Int} {n k w l : Nat}
    (h₁ : rel₁.narrower = some (rel₂, n, w)) (h₂ : rel₂.narrower = some (rel₃, k, l))
    (hfits : xtcFitsImm (xtcAdjustedRel v' (pcrelAdjust rel₂ k)) l = true)
    (hv' : v' = if xtcRelocPcrel rel₂ then xtcAdjustedRel v n else v) :
    Narrows rel₁ v rel₃ (n + k) := by
  have hround := Narrows.round h₂ hfits
  have hp : xtcRelocPcrel rel₂ = xtcRelocPcrel rel₁ := by
    cases rel₁ <;> simp only [Reloc.narrower, Option.some.injEq, Prod.mk.injEq, reduceCtorEq] at h₁
    all_goals
      obtain ⟨rfl, -, -⟩ := h₁
      first | rfl | cases h₂
  have hahead : xtcRelocPcrel rel₁ = false ∨ 0 ≤ v → rel₃.takes v = true := by
    intro hv
    have hsame : v' = v := by
      rw [hv', hp]
      obtain hp | hv := hv
      · rw [hp]
        rfl
      · rw [xtcAdjustedRel_of_nonneg hv, ite_self]
    rw [← hsame, ← hp] at hv
    exact hsame ▸ hround.ahead hv
  have hbehind : xtcRelocPcrel rel₁ = true → v ≤ -rel₁.reserve →
      rel₃.takes (v + ((n + k : Nat) : Int)) = true := by
    intro hp₁ hv
    have hres : rel₁.reserve = rel₂.reserve + n := by
      cases rel₁ <;>
        simp only [Reloc.narrower, Option.some.injEq, Prod.mk.injEq, reduceCtorEq] at h₁
      all_goals
        obtain ⟨rfl, rfl, -⟩ := h₁
        first | rfl | cases hp₁
    have hpos := Reloc.reserve_pos hp₁
    rw [hp, hp₁, if_pos rfl, xtcAdjustedRel_of_neg (by omega)] at hv'
    have hbehind := hround.behind (hp.trans hp₁) (by omega)
    rw [hv', add_assoc] at hbehind
    exact_mod_cast hbehind
  cases rel₁ <;> simp only [Reloc.narrower, Option.some.injEq, Prod.mk.injEq, reduceCtorEq] at h₁
  all_goals
    obtain ⟨rfl, rfl, rfl⟩ := h₁
    simp only [Reloc.narrower, Option.some.injEq, Prod.mk.injEq, reduceCtorEq] at h₂
  all_goals
    obtain ⟨rfl, rfl, rfl⟩ := h₂
    exact ⟨rfl, by decide, by decide, by decide, by decide, by decide, by decide, by decide, hahead,
      hbehind⟩

theorem xtcRelaxRelocation_narrows {rel rel' : Reloc} {v : Int} {m m' : Location} {n : Nat}
    (h : xtcRelaxRelocation rel v m = some (rel', n, m')) :
    n = 0 ∧ rel' = rel ∨ Narrows rel v rel' n := by
  obtain ⟨t, ht, hout⟩ := Option.map_eq_some_iff.mp h
  obtain ⟨rfl, rfl, -⟩ : t.rel = rel' ∧ t.bytes = n ∧ _ = m' := by simpa using hout
  obtain rfl | ⟨s₁, hs₁, ht⟩ := relaxLoop_cases ht
  · exact .inl ⟨rfl, rfl⟩
  obtain ⟨n, w, hn, hb, hfits, hv⟩ := relaxRound_narrower hs₁
  obtain rfl | ⟨s₂, hs₂, ht⟩ := relaxLoop_cases ht
  · rw [hb, Nat.zero_add]
    exact .inr (Narrows.round hn hfits)
  obtain ⟨k, l, hk, hb', hfits', -⟩ := relaxRound_narrower hs₂
  obtain rfl | ⟨s₃, hs₃, -⟩ := relaxLoop_cases ht
  · rw [hb', hb, Nat.zero_add]
    exact .inr (Narrows.twice hn hk hfits' hv)
  · -- no form can be narrowed three times
    obtain ⟨_, _, hj, -⟩ := relaxRound_narrower hs₃
    generalize s₁.rel = r₁ at hn hk
    generalize s₂.rel = r₂ at hk hj
    cases rel <;> simp only [Reloc.narrower, Option.some.injEq, Prod.mk.injEq, reduceCtorEq] at hn
    all_goals
      obtain ⟨rfl, -, -⟩ := hn
      simp only [Reloc.narrower, Option.some.injEq, Prod.mk.injEq, reduceCtorEq] at hk
    all_goals
      obtain ⟨rfl, -, -⟩ := hk
      simp [Reloc.narrower] at hj

/-! ## Sections as they are laid out -/

/-- A defined symbol of the section, not the section's own. -/
def SymbolEntry.IsLabel (e : SymbolEntry) : Prop :=
  e.home = none ∧ e.isSection = false ∧ e.isDefined = true

namespace CodeSection

def HasSite (s : CodeSection) (k : Nat) (r : Relocation) : Prop :=
  s.relocs[k]? = some r ∧ r.rel.isFilled = true

def target (s : CodeSection) (r : Relocation) : Nat := (s.syms r.sym).value

/-- A section at a non-negative address, with its sites inside it and apart from each other.  Each
relocation goes to a label without an addend, outside the sites of the others and at an instruction
of its own. -/
structure Laid (s : CodeSection) : Prop where
  base : 0 ≤ s.place.address
  addend : ∀ k r, s.HasSite k r → r.addend = 0
  label : ∀ k r, s.HasSite k r → SymbolEntry.IsLabel (s.syms r.sym)
  bound : ∀ k r, s.HasSite k r → s.target r ≤ s.size
  inside : ∀ k r, s.HasSite k r → r.rOffset + r.rel.siteSize ≤ s.size
  apart : ∀ i j r q, i ≠ j → s.HasSite i r → s.HasSite j q →
    Cut.Apart r.rOffset r.rel.siteSize q.rOffset q.rel.siteSize
  clear : ∀ i j r q, i ≠ j → s.HasSite i r → s.HasSite j q →
    Cut.Clear q.rOffset q.rel.siteSize (s.target r)
  own : ∀ k r, s.HasSite k r → Cut.Clear r.rOffset r.rel.siteSize (s.target r) ∨
    ∃ d, r.rel.inner = some d ∧ s.target r = r.rOffset + d

def siteValue (s : CodeSection) (r : Relocation) : Int :=
  if xtcRelocPcrel r.rel then s.target r - (r.rOffset + r.rel.reserve)
  else s.place.address + s.target r

variable {s s' : CodeSection} {k : Nat} {r : Relocation}

/-- Relaxing and the final link take the same value. -/
theorem Laid.values (h : Laid s) (hr : s.HasSite k r) :
    ∃ sym, s.symbol (s.syms r.sym) = some sym ∧
      relaxValue r.rel sym r.addend r.rOffset s.place = some (s.siteValue r) ∧
      relocateValue r.rel sym r.addend r.rOffset s.place = some (s.siteValue r) := by
  obtain ⟨hhome, hsec, hdef⟩ := h.label k r hr
  have hadd := h.addend k r hr
  obtain ⟨sym, hsym, hfinal, hsound⟩ : ∃ sym, s.symbol (s.syms r.sym) = some sym ∧
      sym.finalAddress = s.place.address + s.target r ∧ sym.Sound r.addend := by
    cases hg : (s.syms r.sym).isGlobal with
    | true =>
      exact ⟨.ofGlobal (s.syms r.sym).value s.place,
        by simp [symbol, hg, hdef, hhome], rfl, trivial⟩
    | false =>
      exact ⟨.ofLocal false (s.syms r.sym).value ⟨s.place, none⟩,
        by simp [symbol, hg, hsec, hhome], rfl, trivial⟩
  have hmeant : meantValue r.rel sym r.addend r.rOffset s.place = s.siteValue r := by
    rw [meantValue, siteValue, hfinal, hadd, Reloc.reserve]
    split <;> ring
  refine ⟨sym, hsym, ?_, ?_⟩
  · rw [relaxValue_eq, relaxSymval_eq_iff.mpr hsound, hmeant, add_zero]
  · rw [relocateValue_eq hr.2, hmeant, hadd, ite_self, add_zero]

/-! ## One deletion -/

/-- What moves when the site of `r` is narrowed to `rel'` and `n` bytes go: every label, and every
site but the one that is narrowed. -/
structure Deletes (s s' : CodeSection) (k : Nat) (r : Relocation) (rel' : Reloc) (n : Nat) :
    Prop where
  place : s'.place = s.place
  size : s'.size = s.size - n
  self : s'.relocs[k]? = some { r with rel := rel' }
  other : ∀ (j : Nat) (q' : Relocation), j ≠ k → s'.relocs[j]? = some q' →
    ∃ q, s.relocs[j]? = some q ∧ q'.rel = q.rel ∧
      (q.rel.isFilled = true → q' = { q with rOffset := Cut.cut r.rOffset n q.rOffset })
  label : ∀ e, (s.syms e).IsLabel → (s'.syms e).IsLabel
  value : ∀ e, (s.syms e).IsLabel → (s.syms e).value ≤ s.size →
    (s'.syms e).value = Cut.cut r.rOffset n (s.syms e).value

theorem Laid.deletes (h : Laid s) (hk : s.HasSite k r) (c : Location) (rel' : Reloc) (n : Nat) :
    Deletes s (xtcElfRelaxDeleteBytes r.rOffset n
      { s with contents := c, relocs := s.relocs.set k { r with rel := rel' } }) k r rel' n where
  place := rfl
  size := rfl
  self := by
    have hlt : k < s.relocs.length := (List.getElem?_eq_some_iff.mp hk.1).1
    simp [xtcElfRelaxDeleteBytes, hlt]
  other := by
    intro j q' hj hq'
    simp only [xtcElfRelaxDeleteBytes, List.getElem?_map, List.getElem?_set_ne (Ne.symm hj),
      Option.map_eq_some_iff] at hq'
    obtain ⟨q, hq, rfl⟩ := hq'
    refine ⟨q, hq, by split <;> rfl, fun hf => ?_⟩
    have hlt : q.rOffset < s.size := by
      have := h.inside j q ⟨hq, hf⟩
      have := Reloc.siteSize_pos hf
      omega
    by_cases hlater : r.rOffset < q.rOffset
    · rw [if_pos ⟨hlater, hlt⟩, Cut.cut_of_lt hlater]
    · rw [if_neg (fun hc => hlater hc.1), Cut.cut_of_le (by omega)]
  label := by
    intro e he
    simp only [xtcElfRelaxDeleteBytes]
    split <;> exact he
  value := by
    intro e he hle
    by_cases hlater : r.rOffset < (s.syms e).value
    · simp [xtcElfRelaxDeleteBytes, he.1, hlater, hle, Cut.cut_of_lt hlater]
    · simp [xtcElfRelaxDeleteBytes, hlater, Cut.cut_of_le (Nat.not_lt.mp hlater)]

variable {rel' : Reloc} {v : Int} {n : Nat}

/-- The sites after a deletion. -/
theorem Deletes.site (hd : Deletes s s' k r rel' n) {j : Nat} {q' : Relocation}
    (hq' : s'.HasSite j q') :
    j = k ∧ q' = { r with rel := rel' } ∧ rel'.isFilled = true ∨
      j ≠ k ∧ ∃ q, s.HasSite j q ∧ q' = { q with rOffset := Cut.cut r.rOffset n q.rOffset } := by
  by_cases hj : j = k
  · subst hj
    have hq : q' = { r with rel := rel' } := Option.some.inj (hq'.1.symm.trans hd.self)
    refine .inl ⟨rfl, hq, ?_⟩
    have hf := hq'.2
    rw [hq] at hf
    exact hf
  · obtain ⟨q, hq, hrel, hmoved⟩ := hd.other j q' hj hq'.1
    have hf : q.rel.isFilled = true := hrel ▸ hq'.2
    exact .inr ⟨hj, q, ⟨hq, hf⟩, hmoved hf⟩

theorem Deletes.target (hd : Deletes s s' k r rel' n) (h : Laid s) {j : Nat} {q : Relocation}
    (hq : s.HasSite j q) (off : Nat) (rel : Reloc) :
    s'.target { q with rOffset := off, rel := rel } = Cut.cut r.rOffset n (s.target q) :=
  hd.value q.sym (h.label j q hq) (h.bound j q hq)

theorem Laid.target_clear (h : Laid s) (hk : s.HasSite k r) (hn : Narrows r.rel v rel' n) {j : Nat}
    {q : Relocation} (hq : s.HasSite j q) (hj : j = k → rel'.isFilled = true) :
    Cut.Clear r.rOffset n (s.target q) := by
  by_cases hjk : j = k
  · subst hjk
    obtain rfl : q = r := Option.some.inj (hq.1.symm.trans hk.1)
    obtain hclear | ⟨d, hd, ht⟩ := h.own j q hq
    · exact hclear.mono hn.room.le
    · have hle : n ≤ d := by
        obtain hnd | ⟨hnd, -⟩ := hn.inner (hj rfl) d hd <;> omega
      exact .inr (by omega)
  · exact (h.clear j k q r hjk hq hk).mono hn.room.le

theorem Deletes.laid (hd : Deletes s s' k r rel' n) (h : Laid s) (hk : s.HasSite k r)
    (hn : Narrows r.rel v rel' n) : Laid s' where
  base := hd.place ▸ h.base
  addend := by
    intro j q' hq'
    obtain ⟨-, rfl, -⟩ | ⟨-, q, hq, rfl⟩ := hd.site hq'
    · exact h.addend k r hk
    · exact h.addend j q hq
  label := by
    intro j q' hq'
    obtain ⟨-, rfl, -⟩ | ⟨-, q, hq, rfl⟩ := hd.site hq'
    · exact hd.label _ (h.label k r hk)
    · exact hd.label _ (h.label j q hq)
  bound := by
    intro j q' hq'
    have hin := h.inside k r hk
    have hroom := hn.room
    rw [hd.size]
    obtain ⟨-, rfl, -⟩ | ⟨-, q, hq, rfl⟩ := hd.site hq'
    · rw [hd.target h hk]
      exact Cut.cut_bound (h.bound k r hk) (by omega)
    · rw [hd.target h hq]
      exact Cut.cut_bound (h.bound j q hq) (by omega)
  inside := by
    intro j q' hq'
    have hin := h.inside k r hk
    rw [hd.size]
    obtain ⟨-, rfl, -⟩ | ⟨hj, q, hq, rfl⟩ := hd.site hq'
    · have hsize := hn.size
      show r.rOffset + rel'.siteSize ≤ _
      omega
    · exact (h.apart k j r q (Ne.symm hj) hk hq).cut_bound hn.room.le (Reloc.siteSize_pos hq.2)
        (h.inside j q hq) hin
  apart := by
    intro i j p' q' hij hp' hq'
    obtain ⟨rfl, rfl, -⟩ | ⟨hi, p, hp, rfl⟩ := hd.site hp' <;>
      obtain ⟨rfl, rfl, -⟩ | ⟨hj, q, hq, rfl⟩ := hd.site hq'
    · exact absurd rfl hij
    · exact (h.apart i j r q (Ne.symm hj) hk hq).cut_self hn.size
    · exact ((h.apart j i r p (Ne.symm hi) hk hp).cut_self hn.size).symm
    · exact Cut.Apart.cut_both (h.apart k i r p (Ne.symm hi) hk hp)
        (h.apart k j r q (Ne.symm hj) hk hq) (h.apart i j p q hij hp hq) hn.room.le
        (Reloc.siteSize_pos hp.2) (Reloc.siteSize_pos hq.2)
  clear := by
    intro i j p' q' hij hp' hq'
    obtain ⟨rfl, rfl, hf⟩ | ⟨hi, p, hp, rfl⟩ := hd.site hp' <;>
      obtain ⟨rfl, rfl, -⟩ | ⟨hj, q, hq, rfl⟩ := hd.site hq'
    · exact absurd rfl hij
    · rw [hd.target h hk]
      exact (h.apart i j r q (Ne.symm hj) hk hq).cut_clear (h.target_clear hk hn hk fun _ => hf)
        (h.clear i j r q hij hk hq) hn.room.le (Reloc.siteSize_pos hq.2)
    · rw [hd.target h hp]
      exact (h.clear i j p r hij hp hk).cut_self hn.size
    · rw [hd.target h hp]
      exact (h.apart k j r q (Ne.symm hj) hk hq).cut_clear
        (h.target_clear hk hn hp fun hik => absurd hik hi) (h.clear i j p q hij hp hq)
        hn.room.le (Reloc.siteSize_pos hq.2)
  own := by
    intro j q' hq'
    obtain ⟨rfl, rfl, hf⟩ | ⟨hj, q, hq, rfl⟩ := hd.site hq'
    · rw [hd.target h hk]
      obtain hclear | ⟨d, hinner, ht⟩ := h.own j r hk
      · exact .inl (hclear.cut_self hn.size)
      · have hpos := (Reloc.inner_pos hinner).1
        rw [ht, Cut.cut_of_lt (by omega)]
        obtain rfl | ⟨hlt, hinner'⟩ := hn.inner hf d hinner
        · exact .inl (.inl (by show r.rOffset + n - n ≤ r.rOffset; omega))
        · exact .inr ⟨d - n, hinner', by show r.rOffset + d - n = r.rOffset + (d - n); omega⟩
    · rw [hd.target h hq]
      have hapart := h.apart k j r q (Ne.symm hj) hk hq
      obtain hclear | ⟨d, hinner, ht⟩ := h.own j q hq
      · exact .inl (hapart.cut_clear (h.target_clear hk hn hq fun hik => absurd hik hj) hclear
          hn.room.le (Reloc.siteSize_pos hq.2))
      · refine .inr ⟨d, hinner, ?_⟩
        rw [ht, hapart.cut_add hn.room.le (Reloc.siteSize_pos hq.2) (Reloc.inner_pos hinner).2.le]

/-! ## Values never grow -/

/-- A distance comes no further from zero, and does not change its sign. -/
def Shrinks (v v' : Int) : Prop := 0 ≤ v' ∧ v' ≤ v ∨ v ≤ v' ∧ v' ≤ 0

theorem Shrinks.takes {v v' : Int} (h : Shrinks v v') {rel : Reloc} (ht : rel.takes v = true) :
    rel.takes v' = true := by
  have hfits : ∀ w : Nat, w ≠ 0 → xtcFitsImm v w = true → xtcFitsImm v' w = true := by
    intro w hw hv
    rw [xtcFitsImm_iff hw] at hv ⊢
    have hpos : (0 : Int) < 2 ^ (w - 1) := by positivity
    unfold Shrinks at h
    constructor <;> omega
  cases rel <;> first | rfl | exact hfits _ (by decide) ht

theorem Laid.where_target (h : Laid s) (hr : s.HasSite k r) :
    s.target r ≤ r.rOffset ∨ r.rOffset + r.rel.siteSize ≤ s.target r ∨
      ∃ d, r.rel.inner = some d ∧ s.target r = r.rOffset + d := by
  obtain (hle | hge) | hinner := h.own k r hr
  · exact .inl hle
  · exact .inr (.inl hge)
  · exact .inr (.inr hinner)

/-- A site that only moves sees its target come nearer. -/
theorem Deletes.shrinks (hd : Deletes s s' k r rel' n) (h : Laid s) (hk : s.HasSite k r)
    (hn : Narrows r.rel v rel' n) {j : Nat} {q : Relocation} (hj : j ≠ k) (hq : s.HasSite j q) :
    Shrinks (s.siteValue q)
      (s'.siteValue { q with rOffset := Cut.cut r.rOffset n q.rOffset }) := by
  have ht := hd.target h hq (Cut.cut r.rOffset n q.rOffset) q.rel
  have hclear := h.target_clear hk hn hq fun hjk => absurd hjk hj
  have hapart := h.apart k j r q (Ne.symm hj) hk hq
  have hsize := Reloc.siteSize_pos hq.2
  simp only [siteValue, hd.place]
  rw [ht]
  split
  · rename_i hp
    have hres := Reloc.reserve_pos hp
    have hres' : q.rel.reserve ≤ q.rel.siteSize := Reloc.reserve_le
    obtain hle | hge | ⟨d, hinner, hd⟩ := h.where_target hq
    · -- behind: the site comes back towards it
      have hnear := ((hapart.clear hsize).mono hn.room.le).cut_near hle
      exact .inr (by omega)
    · -- ahead: the target comes back, and stays behind the end of the site
      have hnear := hclear.cut_near hge
      rw [hapart.cut_add hn.room.le hsize le_rfl] at hnear
      exact .inl (by omega)
    · -- on its own instruction: both move together
      rw [hd, hapart.cut_add hn.room.le hsize (Reloc.inner_pos hinner).2.le]
      have hinner' := Reloc.reserve_inner hp hinner
      exact .inr (by omega)
  · have hle := Cut.cut_le r.rOffset n (s.target q)
    have hbase := h.base
    exact .inl (by omega)

/-- The site that is narrowed takes its new value. -/
theorem Deletes.takes (hd : Deletes s s' k r rel' n) (h : Laid s) (hk : s.HasSite k r)
    (hn : Narrows r.rel (s.siteValue r) rel' n) (hf : rel'.isFilled = true) :
    rel'.takes (s'.siteValue { r with rel := rel' }) = true := by
  have ht : s'.target { r with rel := rel' } = Cut.cut r.rOffset n (s.target r) :=
    hd.target h hk r.rOffset rel'
  have hp := hn.pcrel hf
  cases hpc : xtcRelocPcrel r.rel with
  | false =>
    have hv : s.siteValue r = s.place.address + s.target r := by simp [siteValue, hpc]
    have hv' : s'.siteValue { r with rel := rel' } =
        s.place.address + Cut.cut r.rOffset n (s.target r) := by
      simp [siteValue, hp, hpc, ht, hd.place]
    have hle := Cut.cut_le r.rOffset n (s.target r)
    have hbase := h.base
    have hshrinks : Shrinks (s.siteValue r) (s'.siteValue { r with rel := rel' }) :=
      .inl (by omega)
    exact hshrinks.takes (hn.ahead (.inl hpc))
  | true =>
    have hres := hn.reserve hf hpc
    have hpos := Reloc.reserve_pos hpc
    have hres' : r.rel.reserve ≤ r.rel.siteSize := Reloc.reserve_le
    have hv : s.siteValue r = s.target r - (r.rOffset + r.rel.reserve) := by
      simp [siteValue, hpc]
    have hv' : s'.siteValue { r with rel := rel' } =
        (Cut.cut r.rOffset n (s.target r) : Int) - (r.rOffset + rel'.reserve) := by
      simp [siteValue, hp, hpc, ht]
    obtain hle | hge | ⟨d, hinner, htd⟩ := h.where_target hk
    · -- behind: the value grows by the bytes that go
      have hsame : s'.siteValue { r with rel := rel' } = s.siteValue r + n := by
        rw [hv', hv, Cut.cut_of_le hle]
        omega
      rw [hsame]
      exact hn.behind hpc (by omega)
    · -- ahead: the target moves with the end of the site
      have hlt : r.rOffset < s.target r := by
        have := Reloc.siteSize_pos hk.2
        omega
      have hroom := hn.room
      have hsame : s'.siteValue { r with rel := rel' } = s.siteValue r := by
        rw [hv', hv, Cut.cut_of_lt hlt]
        omega
      rw [hsame]
      exact hn.ahead (.inr (by omega))
    · have hinner' := Reloc.reserve_inner hpc hinner
      have hd' := (Reloc.inner_pos hinner).1
      have hle : n ≤ d := by
        obtain hnd | ⟨hnd, -⟩ := hn.inner hf d hinner <;> omega
      have hsame : s'.siteValue { r with rel := rel' } = -2 := by
        rw [hv', htd, Cut.cut_of_lt (by omega)]
        omega
      rw [hsame]
      exact rel'.takes_inner

/-! ## Every run -/

/-- One round of the loop leaves the layout alone, or narrows its site. -/
theorem relaxReloc_cases (h : Laid s) {deleted : Bool}
    (hstep : relaxReloc k s = some (s', deleted)) :
    (deleted = false ∧ s'.place = s.place ∧ s'.size = s.size ∧ s'.relocs = s.relocs ∧
      s'.syms = s.syms) ∨
    (deleted = true ∧ ∃ r rel' n, s.HasSite k r ∧ Narrows r.rel (s.siteValue r) rel' n ∧
      Deletes s s' k r rel' n) := by
  unfold relaxReloc at hstep
  split at hstep
  · cases hstep
    exact .inl ⟨rfl, rfl, rfl, rfl, rfl⟩
  · rename_i r hr
    split at hstep
    · cases hstep
      exact .inl ⟨rfl, rfl, rfl, rfl, rfl⟩
    · rename_i sym hsym
      obtain ⟨value, hvalue, hbind⟩ := Option.bind_eq_some_iff.mp hstep
      obtain ⟨⟨rel', n, location⟩, hrelax, hend⟩ := Option.bind_eq_some_iff.mp hbind
      dsimp only at hend
      obtain ⟨rfl, -⟩ | hn := xtcRelaxRelocation_narrows hrelax
      · simp only [ne_eq, not_true_eq_false, if_false, Option.pure_def, Option.some.injEq,
          Prod.mk.injEq] at hend
        obtain ⟨rfl, rfl⟩ := hend
        exact .inl ⟨rfl, rfl, rfl, rfl, rfl⟩
      · have hk : s.HasSite k r := ⟨hr, hn.filled⟩
        have hpos := hn.pos
        obtain ⟨sym', hsym', hvalue', -⟩ := h.values hk
        obtain rfl : sym = sym' := Option.some.inj (hsym.symm.trans hsym')
        obtain rfl : value = s.siteValue r := Option.some.inj (hvalue.symm.trans hvalue')
        simp only [ne_eq, show n ≠ 0 by omega, not_false_eq_true, if_true, Option.pure_def,
          Option.some.injEq, Prod.mk.injEq] at hend
        obtain ⟨rfl, rfl⟩ := hend
        exact .inr ⟨rfl, r, rel', n, hk, hn, h.deletes hk _ rel' n⟩

theorem relaxReloc_of_relax {sym : Symbol Int} {m' : Location} (hr : s.relocs[k]? = some r)
    (hsym : s.symbol (s.syms r.sym) = some sym)
    (hvalue : relaxValue r.rel sym r.addend r.rOffset s.place = some v)
    (hrelax : xtcRelaxRelocation r.rel v (fun i => s.contents (r.rOffset + i)) =
      some (rel', n, m')) (hn : n ≠ 0) :
    relaxReloc k s = some (xtcElfRelaxDeleteBytes r.rOffset n
      { s with
        contents := fun i => if i < r.rOffset then s.contents i else m' (i - r.rOffset),
        relocs := s.relocs.set k { r with rel := rel' } }, true) := by
  simp [relaxReloc, hr, hsym, hvalue, hrelax, hn]

/-- A relocation has kept the form it had in `s₀`, or is gone, or takes its value. -/
def Fits (s₀ s : CodeSection) : Prop :=
  ∀ (k : Nat) (r₀ r : Relocation), s₀.relocs[k]? = some r₀ → s.relocs[k]? = some r →
    r.rel = r₀.rel ∨ r.rel = .none ∨ r.rel.isFilled = true ∧ r.rel.takes (s.siteValue r) = true

theorem Fits.refl (s : CodeSection) : Fits s s := by
  intro k r₀ r h₀ h
  obtain rfl : r₀ = r := Option.some.inj (h₀.symm.trans h)
  exact .inl rfl

/-- A relocation of another index, before and after a deletion. -/
theorem Deletes.fits {s₀ : CodeSection} (hd : Deletes s s' k r rel' n) (h : Laid s)
    (hk : s.HasSite k r) (hn : Narrows r.rel (s.siteValue r) rel' n) (hfits : Fits s₀ s) :
    Fits s₀ s' := by
  intro j r₀ q' h₀ hq'
  by_cases hj : j = k
  · subst hj
    obtain rfl : q' = { r with rel := rel' } := Option.some.inj (hq'.symm.trans hd.self)
    obtain hnone | hf := hn.form
    · exact .inr (.inl hnone)
    · exact .inr (.inr ⟨hf, hd.takes h hk hn hf⟩)
  · obtain ⟨q, hq, hrel, hmoved⟩ := hd.other j q' hj hq'
    obtain heq | hnone | ⟨hf, htakes⟩ := hfits j r₀ q h₀ hq
    · exact .inl (hrel.trans heq)
    · exact .inr (.inl (hrel.trans hnone))
    · obtain rfl := hmoved hf
      exact .inr (.inr ⟨hf, (hd.shrinks h hk hn hj ⟨hq, hf⟩).takes htakes⟩)

/-- A round that changes nothing but the contents. -/
theorem Laid.same (h : Laid s) (hplace : s'.place = s.place) (hsize : s'.size = s.size)
    (hrelocs : s'.relocs = s.relocs) (hsyms : s'.syms = s.syms) : Laid s' := by
  obtain ⟨place, size, contents, relocs, syms⟩ := s
  obtain ⟨place', size', contents', relocs', syms'⟩ := s'
  obtain rfl : place' = place := hplace
  obtain rfl : size' = size := hsize
  obtain rfl : relocs' = relocs := hrelocs
  obtain rfl : syms' = syms := hsyms
  exact ⟨h.base, h.addend, h.label, h.bound, h.inside, h.apart, h.clear, h.own⟩

theorem relaxReloc_fits {s₀ : CodeSection} (h : Laid s) (hfits : Fits s₀ s) {deleted : Bool}
    (hstep : relaxReloc k s = some (s', deleted)) :
    Laid s' ∧ Fits s₀ s' ∧ s'.size ≤ s.size ∧ (deleted = true → s'.size < s.size) := by
  obtain ⟨rfl, hplace, hsize, hrelocs, hsyms⟩ | ⟨rfl, r, rel', n, hk, hn, hd⟩ :=
    relaxReloc_cases h hstep
  · refine ⟨h.same hplace hsize hrelocs hsyms, ?_, hsize.le, fun hc => absurd hc (by decide)⟩
    intro j r₀ q h₀ hq
    have hvalue : s'.siteValue q = s.siteValue q := by
      simp only [siteValue, CodeSection.target, hplace, hsyms]
    rw [hvalue]
    exact hfits j r₀ q h₀ (hrelocs ▸ hq)
  · have hpos := hn.pos
    have hroom := hn.room
    have hin := h.inside k r hk
    have hsize := hd.size
    exact ⟨hd.laid h hk hn, hd.fits h hk hn hfits, by omega, fun _ => by omega⟩

theorem relaxRelocs_fits {s₀ : CodeSection} {ks : List Nat} (h : Laid s) (hfits : Fits s₀ s)
    {again : Bool} (hrun : relaxRelocs ks s = some (s', again)) :
    Laid s' ∧ Fits s₀ s' ∧ s'.size ≤ s.size ∧ (again = true → s'.size < s.size) := by
  induction ks generalizing s again with
  | nil =>
    cases hrun
    exact ⟨h, hfits, le_rfl, fun hc => absurd hc (by decide)⟩
  | cons k ks ih =>
    obtain ⟨⟨s₁, deleted⟩, hstep, hbind⟩ := Option.bind_eq_some_iff.mp hrun
    obtain ⟨⟨s₂, rest⟩, hrest, hend⟩ := Option.bind_eq_some_iff.mp hbind
    obtain ⟨rfl, rfl⟩ : s₂ = s' ∧ (deleted || rest) = again := by simpa using hend
    obtain ⟨h₁, hfits₁, hle₁, hlt₁⟩ := relaxReloc_fits h hfits hstep
    obtain ⟨h₂, hfits₂, hle₂, hlt₂⟩ := ih h₁ hfits₁ hrest
    refine ⟨h₂, hfits₂, hle₂.trans hle₁, fun hagain => ?_⟩
    obtain hd | hr := (Bool.or_eq_true _ _).mp hagain
    · exact hle₂.trans_lt (hlt₁ hd)
    · exact (hlt₂ hr).trans_le hle₁

/-- Each pass that asks for another one leaves a smaller section. -/
theorem passes_le {t : Nat → CodeSection} (h₀ : Laid (t 0)) (passes : Nat)
    (hpass : ∀ i < passes, xtcElfRelaxSection (t i) = some (t (i + 1), true)) :
    Laid (t passes) ∧ passes + (t passes).size ≤ (t 0).size := by
  induction passes with
  | zero => exact ⟨h₀, by omega⟩
  | succ n ih =>
    obtain ⟨hn, hsize⟩ := ih fun i hi => hpass i (by omega)
    obtain ⟨hlaid, -, -, hlt⟩ := relaxRelocs_fits hn (Fits.refl _) (hpass n (by omega))
    have := hlt rfl
    exact ⟨hlaid, by omega⟩

/-- After any rounds in any order, a site that was narrowed holds its value in the final layout:
its emission succeeds.  There are no more passes that ask for another one than the section has
bytes. -/
theorem narrowed_fits {s₀ : CodeSection} (h₀ : Laid s₀) :
    (∀ ks s again, relaxRelocs ks s₀ = some (s, again) →
      ∀ (k : Nat) (r₀ r : Relocation), s₀.relocs[k]? = some r₀ → s.relocs[k]? = some r →
        r.rel ≠ r₀.rel → r.rel = .none ∨
          ∃ v, s.finalValue r = some v ∧ r.rel.takes v = true ∧
            ∀ m, ((xtcEmitRelocationAt r.rel v r.rOffset).run m).1 = 0) ∧
    (∀ t : Nat → CodeSection, t 0 = s₀ → ∀ passes,
      (∀ i < passes, xtcElfRelaxSection (t i) = some (t (i + 1), true)) → passes ≤ s₀.size) := by
  constructor
  · intro ks s again hrun k r₀ r hr₀ hr hne
    obtain ⟨hlaid, hfits, -, -⟩ := relaxRelocs_fits h₀ (Fits.refl s₀) hrun
    obtain heq | hnone | ⟨hf, htakes⟩ := hfits k r₀ r hr₀ hr
    · exact absurd heq hne
    · exact .inl hnone
    · obtain ⟨sym, hsym, -, hvalue⟩ := hlaid.values ⟨hr, hf⟩
      refine .inr ⟨s.siteValue r, ?_, htakes, xtcEmitRelocationAt_takes htakes r.rOffset⟩
      rw [finalValue, hsym]
      exact hvalue
  · rintro t rfl passes hpass
    have := (passes_le h₀ passes hpass).2
    omega

/-- `br` over one instruction and back: two sites of six bytes at address 0x100. -/
def loopSection : CodeSection where
  place := ⟨0x100, 0⟩
  size := 12
  contents := fun i =>
    [0x80#8, 0#8, 0x60#8, 0#8, 0x40#8, 0#8, 0x80#8, 0#8, 0x60#8, 0#8, 0x40#8, 0#8].getD i 0
  relocs := [⟨0, .e24I8R, 0, 0⟩, ⟨6, .e24I8R, 1, 0⟩]
  syms := fun k => ⟨false, true, false, none, if k = 0 then 12 else 0⟩

theorem loopSection_site {k : Nat} {r : Relocation} (h : loopSection.HasSite k r) :
    k = 0 ∧ r = ⟨0, .e24I8R, 0, 0⟩ ∨ k = 1 ∧ r = ⟨6, .e24I8R, 1, 0⟩ := by
  obtain ⟨h, -⟩ := h
  match k with
  | 0 => exact .inl ⟨rfl, (Option.some.inj h).symm⟩
  | 1 => exact .inr ⟨rfl, (Option.some.inj h).symm⟩
  | k + 2 => simp [loopSection] at h

theorem loopSection_laid : Laid loopSection where
  base := by decide
  addend := by
    intro k r h
    obtain ⟨-, rfl⟩ | ⟨-, rfl⟩ := loopSection_site h <;> rfl
  label := by
    intro k r h
    obtain ⟨-, rfl⟩ | ⟨-, rfl⟩ := loopSection_site h <;> exact ⟨rfl, rfl, rfl⟩
  bound := by
    intro k r h
    obtain ⟨-, rfl⟩ | ⟨-, rfl⟩ := loopSection_site h <;> decide
  inside := by
    intro k r h
    obtain ⟨-, rfl⟩ | ⟨-, rfl⟩ := loopSection_site h <;> decide
  apart := by
    intro i j r q hij hr hq
    obtain ⟨rfl, rfl⟩ | ⟨rfl, rfl⟩ := loopSection_site hr <;>
      obtain ⟨rfl, rfl⟩ | ⟨rfl, rfl⟩ := loopSection_site hq <;>
      first | exact absurd rfl hij | exact .inl (by decide) | exact .inr (by decide)
  clear := by
    intro i j r q hij hr hq
    obtain ⟨rfl, rfl⟩ | ⟨rfl, rfl⟩ := loopSection_site hr <;>
      obtain ⟨rfl, rfl⟩ | ⟨rfl, rfl⟩ := loopSection_site hq <;>
      first | exact absurd rfl hij | exact .inl (by decide) | exact .inr (by decide)
  own := by
    intro k r h
    obtain ⟨-, rfl⟩ | ⟨-, rfl⟩ := loopSection_site h
    · exact .inl (.inr (by decide))
    · exact .inl (.inl (by decide))

/-- Narrowing the second branch frees four bytes, and its value fits the short form. -/
theorem narrowed_fits_loop :
    ∃ s, relaxRelocs [1] loopSection = some (s, true) ∧ s.relocs[1]? = some ⟨6, .i8R, 1, 0⟩ ∧
      ∃ v, s.finalValue ⟨6, .i8R, 1, 0⟩ = some v ∧
        ∀ m, ((xtcEmitRelocationAt .i8R v 6).run m).1 = 0 := by
  have hloop := (relaxLoop_retry (s := ⟨.e24I8R, -12, 0, fun i => loopSection.contents (6 + i)⟩)
    rfl).trans ((relaxLoop_retry rfl).trans (relaxLoop_stop rfl))
  obtain ⟨m', hrelax⟩ : ∃ m', xtcRelaxRelocation .e24I8R (-12)
      (fun i => loopSection.contents (6 + i)) = some (.i8R, 4, m') :=
    ⟨_, xtcRelaxRelocation_of_loop hloop⟩
  obtain ⟨s, hrun, hr⟩ : ∃ s, relaxRelocs [1] loopSection = some (s, true) ∧
      s.relocs[1]? = some ⟨6, .i8R, 1, 0⟩ := by
    refine ⟨xtcElfRelaxDeleteBytes 6 4 { loopSection with
      contents := fun i => if i < 6 then loopSection.contents i else m' (i - 6),
      relocs := loopSection.relocs.set 1 ⟨6, .i8R, 1, 0⟩ }, ?_, rfl⟩
    have hvalue : relaxValue .e24I8R (.ofLocal false ((0 : Nat) : Int) ⟨⟨0x100, 0⟩, none⟩) 0
        ((6 : Nat) : Int) ⟨0x100, 0⟩ = some (-12) := by decide
    have hone := relaxReloc_of_relax (s := loopSection) (k := 1) (r := ⟨6, .e24I8R, 1, 0⟩) rfl rfl
      hvalue hrelax (by decide)
    rw [relaxRelocs, hone]
    rfl
  refine ⟨s, hrun, hr, ?_⟩
  obtain hnone | ⟨v, hv, -, hemit⟩ :=
    (narrowed_fits loopSection_laid).1 [1] s true hrun 1 _ _ rfl hr (by decide)
  · cases hnone
  · exact ⟨v, hv, hemit⟩

end CodeSection

end Xtc.Linker
