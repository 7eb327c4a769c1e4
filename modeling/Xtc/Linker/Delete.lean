import Xtc.Linker.Layout

/-!
# Delete — what a deletion does to the section and its symbols

`xtc_elf_relax_delete_bytes` moves the contents, the relocations, the local symbols and the global
symbols of a section in four loops.  Here they are written out over the tables that the function
walks, and the section of `Layout` is shown to follow them.
-/

namespace Xtc.Linker

/-! ## The tables -/

/-- `Elf_Internal_Sym`, the entry of a local symbol. -/
structure ElfInternalSym where
  stShndx : Nat
  stValue : Nat
  deriving DecidableEq

inductive LinkHashType
  | new | undefined | undefweak | defined | defweak | common | indirect | warning
  deriving DecidableEq

/-- `elf_link_hash_entry`, the entry of a global symbol; sections are known by a number. -/
structure ElfLinkHashEntry where
  type : LinkHashType
  defSection : Nat
  defValue : Nat
  deriving DecidableEq

/-- What the function reads of an input file and of one section of it.  `symHashes` points into the
hash table of the link. -/
structure InputBfd where
  sec : Nat
  secShndx : Nat
  size : Nat
  contents : Location
  relocs : List Relocation
  isymbuf : List ElfInternalSym
  symHashes : List Nat
  hashes : Nat → ElfLinkHashEntry

def ElfLinkHashEntry.DefinedIn (e : ElfLinkHashEntry) (sec : Nat) : Prop :=
  (e.type = .defined ∨ e.type = .defweak) ∧ e.defSection = sec

instance (e : ElfLinkHashEntry) (sec : Nat) : Decidable (e.DefinedIn sec) := by
  unfold ElfLinkHashEntry.DefinedIn
  infer_instance

def adjustReloc (addr count toaddr : Nat) (irel : Relocation) : Relocation :=
  if irel.rOffset > addr ∧ irel.rOffset < toaddr then { irel with rOffset := irel.rOffset - count }
  else irel

def adjustLocal (secShndx addr count toaddr : Nat) (isym : ElfInternalSym) : ElfInternalSym :=
  if isym.stShndx = secShndx ∧ isym.stValue > addr ∧ isym.stValue ≤ toaddr then
    { isym with stValue := isym.stValue - count }
  else isym

def adjustGlobal (sec addr count toaddr : Nat) (e : ElfLinkHashEntry) : ElfLinkHashEntry :=
  if e.DefinedIn sec ∧ e.defValue > addr ∧ e.defValue ≤ toaddr then
    { e with defValue := e.defValue - count }
  else e

namespace InputBfd

def xtcElfRelaxDeleteBytes (addr count : Nat) (o : InputBfd) : InputBfd :=
  let toaddr := o.size
  { o with
    size := o.size - count
    -- memmove of toaddr - addr - count bytes
    contents := fun i => if addr ≤ i ∧ i < toaddr - count then o.contents (i + count)
      else o.contents i
    relocs := o.relocs.map (adjustReloc addr count toaddr)
    isymbuf := o.isymbuf.map (adjustLocal o.secShndx addr count toaddr)
    hashes := o.symHashes.foldl
      (fun hashes k => Function.update hashes k (adjustGlobal o.sec addr count toaddr (hashes k)))
      o.hashes }

def content (o : InputBfd) : List (BitVec 8) := (List.range o.size).map o.contents

end InputBfd

/-! ## The loop over the global symbols -/

/-- A loop over distinct pointers changes each entry once. -/
theorem foldl_update_nodup {α : Type*} (f : α → α) {ks : List Nat} (hks : ks.Nodup)
    (table : Nat → α) (k : Nat) :
    ks.foldl (fun table k => Function.update table k (f (table k))) table k =
      if k ∈ ks then f (table k) else table k := by
  induction ks generalizing table with
  | nil => rfl
  | cons j ks ih =>
    obtain ⟨hj, hks⟩ := List.nodup_cons.mp hks
    rw [List.foldl_cons, ih hks]
    by_cases hkj : k = j
    · subst hkj
      simp [hj]
    · simp [hkj]

/-! ## Every position goes with its byte -/

/-- The section is one that the bytes can be taken out of: no relocation and no symbol of it lies
strictly inside them, and no pointer stands twice in `symHashes`. -/
structure InputBfd.Deletable (o : InputBfd) (addr count : Nat) : Prop where
  fits : addr + count ≤ o.size
  relocs : ∀ irel ∈ o.relocs, irel.rOffset < o.size ∧ Cut.Clear addr count irel.rOffset
  locals : ∀ isym ∈ o.isymbuf, isym.stShndx = o.secShndx →
    isym.stValue ≤ o.size ∧ Cut.Clear addr count isym.stValue
  globals : ∀ k ∈ o.symHashes, (o.hashes k).DefinedIn o.sec →
    (o.hashes k).defValue ≤ o.size ∧ Cut.Clear addr count (o.hashes k).defValue
  distinct : o.symHashes.Nodup

/-- Position `x'` after the deletion is that of the byte, or of the end, at `x` before.  The byte is
followed by its place, not by what it holds: the place `x'` of what is left of the places of the
section is `x`. -/
structure Designates (addr count size x x' : Nat) : Prop where
  byte : x ≠ addr → x < size → (Cut.without addr count (List.range size))[x']? = some x
  stop : x ≠ addr → x = size → x' = size - count
  addr : x = addr → x' = addr

structure InputBfd.Renumbered (o o' : InputBfd) (addr count : Nat) : Prop where
  size : o'.size = o.size - count
  content : o'.content = Cut.without addr count o.content
  places : o'.content = (Cut.without addr count (List.range o.size)).map o.contents
  relocs : List.Forall₂ (fun irel irel' => irel' = { irel with rOffset := irel'.rOffset } ∧
    Designates addr count o.size irel.rOffset irel'.rOffset) o.relocs o'.relocs
  locals : List.Forall₂ (fun isym isym' => isym'.stShndx = isym.stShndx ∧
    (isym.stShndx = o.secShndx → Designates addr count o.size isym.stValue isym'.stValue) ∧
    (isym.stShndx ≠ o.secShndx → isym' = isym)) o.isymbuf o'.isymbuf
  symHashes : o'.symHashes = o.symHashes
  globals : ∀ k ∈ o.symHashes, (o'.hashes k).type = (o.hashes k).type ∧
    (o'.hashes k).defSection = (o.hashes k).defSection ∧
    ((o.hashes k).DefinedIn o.sec →
      Designates addr count o.size (o.hashes k).defValue (o'.hashes k).defValue) ∧
    (¬ (o.hashes k).DefinedIn o.sec → o'.hashes k = o.hashes k)
  others : ∀ k, k ∉ o.symHashes → o'.hashes k = o.hashes k

section Positions

variable {addr count size x : Nat}

theorem designates_cut (hfits : addr + count ≤ size) (hx : Cut.Clear addr count x) :
    Designates addr count size x (Cut.cut addr count x) where
  byte := by
    intro hne hlt
    rw [hx.without_cut hne (by simpa using hfits), List.getElem?_range hlt]
  stop := by
    intro hne hend
    rw [hend, Cut.cut_of_lt (by omega)]
  addr := fun h => by rw [h, Cut.cut_of_le le_rfl]

theorem adjustReloc_eq {irel : Relocation} (hlt : irel.rOffset < size) :
    adjustReloc addr count size irel =
      { irel with rOffset := Cut.cut addr count irel.rOffset } := by
  unfold adjustReloc Cut.cut
  by_cases h : addr < irel.rOffset
  · rw [if_pos ⟨h, hlt⟩, if_pos h]
  · rw [if_neg (fun hc => h hc.1), if_neg h]

theorem adjustLocal_eq {isym : ElfInternalSym} (hle : isym.stValue ≤ size) :
    adjustLocal isym.stShndx addr count size isym =
      { isym with stValue := Cut.cut addr count isym.stValue } := by
  unfold adjustLocal Cut.cut
  by_cases h : addr < isym.stValue
  · rw [if_pos ⟨rfl, h, hle⟩, if_pos h]
  · rw [if_neg (fun hc => h hc.2.1), if_neg h]

theorem adjustLocal_other {isym : ElfInternalSym} {secShndx : Nat} (h : isym.stShndx ≠ secShndx) :
    adjustLocal secShndx addr count size isym = isym :=
  if_neg fun hc => h hc.1

theorem adjustGlobal_eq {e : ElfLinkHashEntry} {sec : Nat} (hdef : e.DefinedIn sec)
    (hle : e.defValue ≤ size) :
    adjustGlobal sec addr count size e =
      { e with defValue := Cut.cut addr count e.defValue } := by
  unfold adjustGlobal Cut.cut
  by_cases h : addr < e.defValue
  · rw [if_pos ⟨hdef, h, hle⟩, if_pos h]
  · rw [if_neg (fun hc => h hc.2.1), if_neg h]

theorem adjustGlobal_other {e : ElfLinkHashEntry} {sec : Nat} (h : ¬ e.DefinedIn sec) :
    adjustGlobal sec addr count size e = e :=
  if_neg fun hc => h hc.1

end Positions

namespace InputBfd

variable {o : InputBfd} {addr count : Nat}

/-- The contents after the `memmove`. -/
theorem content_delete (hfits : addr + count ≤ o.size) :
    (o.xtcElfRelaxDeleteBytes addr count).content =
      (Cut.without addr count (List.range o.size)).map o.contents := by
  apply List.ext_getElem?
  intro i
  rw [content, List.getElem?_map, List.getElem?_map,
    Cut.without_getElem? _ _ (by simpa using hfits)]
  simp only [xtcElfRelaxDeleteBytes]
  by_cases hi : i < o.size - count
  · by_cases ha : i < addr
    · rw [List.getElem?_range hi, if_pos ha, List.getElem?_range (by omega)]
      simp [Nat.not_le.mpr ha]
    · rw [List.getElem?_range hi, if_neg ha, List.getElem?_range (by omega)]
      simp [Nat.not_lt.mp ha, hi]
  · rw [List.getElem?_eq_none (by simpa using hi), if_neg (by omega),
      List.getElem?_eq_none (by rw [List.length_range]; omega)]
    rfl

theorem hashes_delete (hdistinct : o.symHashes.Nodup) (k : Nat) :
    (o.xtcElfRelaxDeleteBytes addr count).hashes k =
      if k ∈ o.symHashes then adjustGlobal o.sec addr count o.size (o.hashes k)
      else o.hashes k :=
  foldl_update_nodup _ hdistinct _ k

/-- Deleting bytes renumbers everything that points into the section along with them. -/
theorem delete_renumbers (h : o.Deletable addr count) :
    o.Renumbered (o.xtcElfRelaxDeleteBytes addr count) addr count where
  size := rfl
  content := by
    rw [content_delete h.fits, content, Cut.without, Cut.without, List.map_append, List.map_take,
      List.map_drop]
  places := content_delete h.fits
  relocs := by
    apply List.forall₂_map_right_iff.mpr
    apply List.forall₂_same.mpr
    intro irel hmem
    rw [adjustReloc_eq (h.relocs irel hmem).1]
    exact ⟨rfl, designates_cut h.fits (h.relocs irel hmem).2⟩
  locals := by
    apply List.forall₂_map_right_iff.mpr
    apply List.forall₂_same.mpr
    intro isym hmem
    by_cases hsec : isym.stShndx = o.secShndx
    · rw [← hsec, adjustLocal_eq (h.locals isym hmem hsec).1]
      exact ⟨rfl, fun _ => designates_cut h.fits (h.locals isym hmem hsec).2,
        fun hne => absurd rfl hne⟩
    · rw [adjustLocal_other hsec]
      exact ⟨rfl, fun heq => absurd heq hsec, fun _ => rfl⟩
  symHashes := rfl
  globals := by
    intro k hk
    rw [hashes_delete h.distinct, if_pos hk]
    by_cases hdef : (o.hashes k).DefinedIn o.sec
    · rw [adjustGlobal_eq hdef (h.globals k hk hdef).1]
      exact ⟨rfl, rfl, fun _ => designates_cut h.fits (h.globals k hk hdef).2,
        fun hnot => absurd hdef hnot⟩
    · rw [adjustGlobal_other hdef]
      exact ⟨rfl, rfl, fun hd => absurd hd hdef, fun _ => rfl⟩
  others := fun k hk => (hashes_delete h.distinct k).trans (if_neg hk)

/-- Ten bytes with a site in the middle, a label behind it, one at the end and one elsewhere. -/
def tenBytes : InputBfd where
  sec := 1
  secShndx := 1
  size := 10
  contents := fun i => BitVec.ofNat 8 i
  relocs := [⟨2, .i8, 0, 0⟩, ⟨8, .i8, 1, 0⟩]
  isymbuf := [⟨1, 6⟩, ⟨1, 10⟩, ⟨2, 7⟩]
  symHashes := [3, 5]
  hashes := fun k => if k = 3 then ⟨.defined, 1, 8⟩ else ⟨.undefined, 0, 0⟩

theorem delete_renumbers_ten :
    tenBytes.Renumbered (tenBytes.xtcElfRelaxDeleteBytes 2 4) 2 4 ∧
      (tenBytes.xtcElfRelaxDeleteBytes 2 4).content = [0, 1, 6, 7, 8, 9] := by
  refine ⟨delete_renumbers ⟨by decide, ?_, ?_, ?_, by decide⟩, by decide⟩
  · unfold Cut.Clear
    decide
  · unfold Cut.Clear
    decide
  · unfold Cut.Clear
    decide

/-! ## The section of the relaxation pass -/

/-- The section `s` with its one symbol table stands for the tables of `o`: the local symbols come
first, and the home of a symbol of this section is left out. -/
structure StandsFor (s : CodeSection) (o : InputBfd) : Prop where
  size : s.size = o.size
  contents : s.contents = o.contents
  relocs : s.relocs = o.relocs
  locals : ∀ i isym, o.isymbuf[i]? = some isym →
    (s.syms i).value = isym.stValue ∧ ((s.syms i).home = none ↔ isym.stShndx = o.secShndx)
  globals : ∀ i k, o.symHashes[i]? = some k → (o.hashes k).type = .defined ∨
      (o.hashes k).type = .defweak →
    (s.syms (o.isymbuf.length + i)).value = (o.hashes k).defValue ∧
      ((s.syms (o.isymbuf.length + i)).home = none ↔ (o.hashes k).defSection = o.sec)

theorem StandsFor.delete {s : CodeSection} (h : StandsFor s o) (hdistinct : o.symHashes.Nodup) :
    StandsFor (s.xtcElfRelaxDeleteBytes addr count) (o.xtcElfRelaxDeleteBytes addr count) where
  size := congrArg (· - count) h.size
  contents := by
    simp only [CodeSection.xtcElfRelaxDeleteBytes, xtcElfRelaxDeleteBytes, h.size, h.contents]
  relocs := by
    simp only [CodeSection.xtcElfRelaxDeleteBytes, xtcElfRelaxDeleteBytes, h.size, h.relocs]
    rfl
  locals := by
    intro i isym' hi
    simp only [xtcElfRelaxDeleteBytes, List.getElem?_map, Option.map_eq_some_iff] at hi
    obtain ⟨isym, hi, rfl⟩ := hi
    obtain ⟨hvalue, hhome⟩ := h.locals i isym hi
    simp only [CodeSection.xtcElfRelaxDeleteBytes, xtcElfRelaxDeleteBytes, adjustLocal, h.size,
      Option.isNone_iff_eq_none, hhome, hvalue]
    split <;> exact ⟨by simp [hvalue], hhome⟩
  globals := by
    intro i k hi hdef
    have hmem : k ∈ o.symHashes := List.mem_of_getElem? hi
    have hentry : (o.xtcElfRelaxDeleteBytes addr count).hashes k =
        adjustGlobal o.sec addr count o.size (o.hashes k) :=
      (hashes_delete hdistinct k).trans (if_pos hmem)
    have hlength : (o.xtcElfRelaxDeleteBytes addr count).isymbuf.length = o.isymbuf.length :=
      List.length_map _
    have htype : (adjustGlobal o.sec addr count o.size (o.hashes k)).type = (o.hashes k).type := by
      unfold adjustGlobal
      split <;> rfl
    rw [hentry, htype] at hdef
    rw [hentry, hlength]
    obtain ⟨hvalue, hhome⟩ := h.globals i k hi hdef
    simp only [CodeSection.xtcElfRelaxDeleteBytes, adjustGlobal, ElfLinkHashEntry.DefinedIn, h.size,
      Option.isNone_iff_eq_none, hhome, hvalue, hdef, true_and]
    split <;> exact ⟨by simp [hvalue], hhome⟩

end InputBfd

end Xtc.Linker
