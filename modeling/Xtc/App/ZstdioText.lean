import Xtc.App.ZstdioBounds

/-!
# ZstdioText — the characters that `vsnprintf` writes

What the directives of a format print with the fill character and the width digits that are left
from the directives before them.  As long as no string lets `size` wrap, the buffer receives the
front of that text, as far as there is room.
-/

namespace Xtc

namespace Zstdio

open CString (nul)

/-! ## The text in the buffer -/

def Locals.text (v : Locals) : List Char := (List.range v.str).map v.buf

/-- `v'` is `v` with `out` written behind the text, up to the room. -/
structure Prints (v v' : Locals) (out : List Char) : Prop where
  text : v'.text = v.text ++ out.take v.size.toNat
  size : v'.size.toNat = v.size.toNat - out.length
  fill : v'.fill = v.fill

section Prints

variable {v v' v'' : Locals} {out out' : List Char}

/-- Neither the text nor what it depends on changes. -/
theorem Prints.nothing (htext : v'.text = v.text) (hsize : v'.size = v.size)
    (hfill : v'.fill = v.fill) : Prints v v' [] := by
  refine ⟨?_, congrArg BitVec.toNat hsize, hfill⟩
  rw [htext, List.take_nil, List.append_nil]

theorem access_prints (as : List Access) (v : Locals) : Prints v (v.access as) [] :=
  .nothing rfl rfl rfl

theorem Prints.trans (h : Prints v v' out) (h' : Prints v' v'' out') :
    Prints v v'' (out ++ out') := by
  refine ⟨?_, ?_, h'.fill.trans h.fill⟩
  · rw [h'.text, h.text, h.size, List.take_append, List.append_assoc]
  · rw [h'.size, h.size, List.length_append]
    omega

/-- Nothing is written where there is no room. -/
theorem Prints.full (hsize : v.size = 0) (htext : v'.text = v.text) (hsize' : v'.size = 0)
    (hfill : v'.fill = v.fill) : Prints v v' out := by
  have hzero : v.size.toNat = 0 := by rw [hsize]; rfl
  refine ⟨?_, ?_, hfill⟩
  · rw [htext, hzero, List.take_zero, List.append_nil]
  · rw [hsize', hzero, Nat.zero_sub]
    rfl

theorem text_store (c : Char) (v : Locals) : (v.store c).text = v.text := by
  apply List.map_congr_left
  intro i hi
  exact Function.update_of_ne (Nat.ne_of_lt (List.mem_range.mp hi)) c v.buf

theorem put_prints (c : Char) (hsize : v.size ≠ 0) : Prints v (v.put c) [c] := by
  have hpos : v.size.toNat ≠ 0 := fun h => hsize (BitVec.eq_of_toNat_eq h)
  refine ⟨?_, size_pred hsize, rfl⟩
  show (List.range (v.str + 1)).map (v.store c).buf = _
  rw [List.range_succ, List.map_append, List.take_of_length_le (Nat.one_le_iff_ne_zero.mpr hpos)]
  have hlast : (v.store c).buf v.str = c := Function.update_self ..
  have hfront : (List.range v.str).map (v.store c).buf = v.text := text_store c v
  rw [hfront, List.map_singleton, hlast]

end Prints

/-! ## Numbers -/

def numeral (i : BitVec 32) (base : Base) (upper : Char) (pad : Nat) (fill : Char) : List Char :=
  let cs := digits base upper i.toNat []
  (List.replicate (pad - cs.length) fill ++ cs).takeWhile (· ≠ nul)

section Numbers

variable {v : Locals}

theorem copyBack_cons (c : Char) (cs : List Char) (v : Locals) :
    copyBack (c :: cs) v =
      if c = nul ∨ v.size = 0 then v.access [.temp (64 - cs.length)]
      else copyBack cs ((v.access [.temp (64 - cs.length)]).put c) := rfl

theorem copyBack_prints (cs : List Char) (v : Locals) :
    Prints v (copyBack cs v) (cs.takeWhile (· ≠ nul)) := by
  induction cs generalizing v with
  | nil => exact access_prints _ v
  | cons c cs ih =>
    rw [copyBack_cons]
    by_cases hnul : c = nul
    · rw [if_pos (.inl hnul), List.takeWhile_cons_of_neg (by simp [hnul])]
      exact access_prints _ v
    · rw [List.takeWhile_cons_of_pos (by simp [hnul])]
      by_cases hsize : v.size = 0
      · rw [if_pos (.inr hsize)]
        exact Prints.full hsize rfl hsize rfl
      · rw [if_neg (by rintro (h | h) <;> contradiction)]
        have hput := put_prints (v := v.access [.temp (64 - cs.length)]) c hsize
        exact (access_prints _ v).trans (hput.trans (ih _))

theorem utoa_prints (i : BitVec 32) (base : Base) (pad : Nat) (upper : Char) (v : Locals) :
    Prints v (utoa i base pad upper v) (numeral i base upper pad v.fill) := by
  unfold utoa
  by_cases hsize : v.size = 0
  · rw [if_pos (by rw [hsize]; decide)]
    exact Prints.full hsize rfl (BitVec.sub_self _) rfl
  · have hlt : ¬ v.size < 1 := by
      have hpos : v.size.toNat ≠ 0 := fun h => hsize (BitVec.eq_of_toNat_eq h)
      rw [BitVec.lt_def]
      show ¬ v.size.toNat < 1
      omega
    rw [if_neg hlt]
    exact (access_prints _ v).trans (copyBack_prints _ _)

theorem takePad_prints (v : Locals) : Prints v (takePad v).2 [] := by
  unfold takePad
  split
  · exact .nothing rfl rfl rfl
  · exact .nothing rfl rfl rfl

theorem takePad_atoi (v : Locals) : (takePad v).1 = atoi v.sizespec := by
  unfold takePad
  by_cases h : v.sizespec = []
  · rw [if_pos h, h]
    rfl
  · rw [if_neg h]

theorem copyBack_sizespec (cs : List Char) (v : Locals) :
    (copyBack cs v).sizespec = v.sizespec := by
  induction cs generalizing v with
  | nil => rfl
  | cons c cs ih =>
    rw [copyBack_cons]
    split
    · rfl
    · exact ih _

theorem utoa_sizespec (i : BitVec 32) (base : Base) (pad : Nat) (upper : Char) (v : Locals) :
    (utoa i base pad upper v).sizespec = v.sizespec := by
  unfold utoa
  split
  · rfl
  · exact copyBack_sizespec _ _

theorem number_prints (i : BitVec 32) (base : Base) (upper : Char) (v : Locals) :
    Prints v (number i base upper v) (numeral i base upper (atoi v.sizespec) v.fill) := by
  have hpad := takePad_prints v
  have hutoa := utoa_prints i base (atoi v.sizespec) upper (takePad v).2
  rw [hpad.fill] at hutoa
  rw [number_eq, takePad_atoi]
  exact hpad.trans hutoa

theorem number_sizespec (i : BitVec 32) (base : Base) (upper : Char) (v : Locals) :
    (number i base upper v).sizespec = [] := by
  rw [number_eq, utoa_sizespec, takePad_sizespec]

end Numbers

/-! ## Directives -/

/-- What `%d` prints with the width digits and the fill character as they are. -/
def signedText (n : BitVec 32) (pad : Nat) (fill : Char) : List Char :=
  if n.slt 0 then '-' :: numeral (-n) .ten 'A' pad fill else numeral n .ten 'A' pad fill

/-- What the directives print, from the fill character and the width digits on. -/
def render (fill : Char) (spec : List Char) : List Directive → List Char
  | [] => []
  | .char c :: ds => c :: render ' ' spec ds
  | .string s :: ds => s ++ render fill spec ds
  | .signed n :: ds => signedText n (atoi spec) fill ++ render fill [] ds
  | .unsigned n base upper :: ds => numeral n base upper (atoi spec) fill ++ render fill [] ds
  | .width c :: ds =>
      if c ≠ '0' ∨ spec ≠ [] then render fill (spec ++ [c]) ds else render c spec ds

def Directive.IsString : Directive → Prop
  | .string _ => True
  | _ => False

variable {v v' : Locals}

theorem signed_prints (n : BitVec 32) (hsize : v.size ≠ 0) :
    Prints v (signed n v) (signedText n (atoi v.sizespec) v.fill) := by
  unfold signed signedText
  by_cases hneg : n.slt 0 = true
  · rw [if_pos hneg, if_pos hneg]
    exact (put_prints '-' hsize).trans (number_prints (-n) .ten 'A' (v.put '-'))
  · rw [if_neg hneg, if_neg hneg]
    exact number_prints n .ten 'A' v

theorem signed_sizespec (n : BitVec 32) (v : Locals) : (signed n v).sizespec = [] := by
  unfold signed
  split <;> exact number_sizespec _ _ _ _

/-- What is in the buffer, and what directives that are still to come can add to it. -/
def promised (v : Locals) (ds : List Directive) : List Char :=
  v.text ++ (render v.fill v.sizespec ds).take v.size.toNat

theorem promised_full (h : v.size = 0) (ds : List Directive) : promised v ds = v.text := by
  rw [promised, h]
  exact List.append_nil _

theorem promised_prints {out : List Char} {ds : List Directive}
    (htext : v'.text = v.text ++ out.take v.size.toNat)
    (hsize : v'.size.toNat = v.size.toNat - out.length) :
    promised v' ds =
      v.text ++ (out ++ render v'.fill v'.sizespec ds).take v.size.toNat := by
  rw [promised, htext, hsize, List.take_append, List.append_assoc]

theorem width_promised (c : Char) (v : Locals) (ds : List Directive) :
    promised (width c v) ds = promised v (.width c :: ds) := by
  by_cases h : c ≠ '0' ∨ v.sizespec ≠ []
  · rw [width, if_pos h, promised, promised, render, if_pos h]
    rfl
  · rw [width, if_neg h, promised, promised, render, if_neg h]
    rfl

theorem perform_promised (hsize : v.size ≠ 0) {d : Directive} (hd : ¬ d.IsString)
    (ds : List Directive) : promised (d.perform v) ds = promised v (d :: ds) := by
  cases d with
  | string s => exact absurd trivial hd
  | char c =>
    have hput := put_prints (v := { v with fill := ' ' }) c hsize
    exact promised_prints hput.text hput.size
  | signed n =>
    have hsigned := signed_prints (v := v) n hsize
    refine (promised_prints hsigned.text hsigned.size).trans ?_
    rw [hsigned.fill, signed_sizespec]
    rfl
  | unsigned n base upper =>
    have hnumber := number_prints n base upper v
    refine (promised_prints hnumber.text hnumber.size).trans ?_
    rw [hnumber.fill, number_sizespec]
    rfl
  | width c => exact width_promised c v ds

/-- The loop writes what the directives print, as far as there is room. -/
theorem loop_text {format : List Char} {ds : List Directive}
    (hds : directives v.isformat format v.ap = some ds) (hstring : ∀ d ∈ ds, ¬ d.IsString)
    (h : loop format v = some v') : v'.text = promised v ds := by
  induction format generalizing v ds with
  | nil =>
    obtain rfl : v = v' := by simpa [loop] using h
    obtain rfl : ds = [] := by simpa [directives] using hds.symm
    rw [promised, render, List.take_nil, List.append_nil]
  | cons c format ih =>
    unfold loop at h
    by_cases hsize : v.size = 0
    · obtain rfl : v = v' := by simpa [hsize] using h
      exact (promised_full hsize ds).symm
    · obtain ⟨d, isformat, ap, ds', hread, hds', rfl⟩ := directives_cons hds
      rw [if_neg hsize, step_eq, hread] at h
      have hrest : ∀ d ∈ ds', ¬ d.IsString := fun d' hd' =>
        hstring d' (List.mem_append_right _ hd')
      rw [ih (directives_perform (v := v) d hds') hrest h]
      cases d with
      | none => rfl
      | some d =>
        exact perform_promised (v := { v with isformat := isformat, ap := ap }) hsize
          (hstring d (by simp)) ds'

theorem vsnprintf_text {format : List Char} {ap : List Arg} {ds : List Directive}
    (buf : Nat → Char) (size : BitVec 32) (hds : directives false format ap = some ds)
    (hstring : ∀ d ∈ ds, ¬ d.IsString) :
    ∃ v, vsnprintf buf size format ap = some v ∧
      v.text = (render nul [] ds).take (size - 1).toNat ∧ v.buf v.str = nul := by
  obtain ⟨v, hv⟩ := loop_isSome (v := ⟨buf, 0, size - 1, [], false, nul, ap, []⟩) hds
  refine ⟨v.store nul, ?_, ?_, Function.update_self ..⟩
  · rw [vsnprintf, hv]
    rfl
  · rw [text_store, loop_text hds hstring hv]
    rfl

end Zstdio

end Xtc
