import Mathlib.Tactic

/-!
# WriteBack — a direct-mapped write-back cache in front of a memory

`spec` is the memory the cache is to show.  A word is current in the cache if its line is there, and
current in the memory unless its line is there and dirty.  One write may be in flight: the word it
goes to is then only known up to what the write will put over it.
-/

namespace WriteBack

/-- How an address falls into a tag, a line and an offset. -/
structure Layout (α τ ι κ : Type*) where
  tag : α → τ
  line : α → ι
  offset : α → κ
  ext : ∀ a b, tag a = tag b → line a = line b → offset a = offset b → a = b

structure Entry (τ : Type*) where
  dirty : Bool
  valid : Bool
  tag : τ
  deriving DecidableEq

structure Write (α ω : Type*) where
  addr : α
  upd : ω → ω
  idem : ∀ w, upd (upd w) = upd w

variable {α τ ι κ ω : Type*} (M : Layout α τ ι κ)

def Layout.slot (a : α) : ι × κ := (M.line a, M.offset a)

/-- The entry is the one of the line of `a`. -/
def Holds (e : Entry τ) (a : α) : Prop := e.valid = true ∧ e.tag = M.tag a

/-- Equal, or equal once the write in flight is made. -/
def Agree (p : Option (Write α ω)) (a : α) (v w : ω) : Prop :=
  v = w ∨ ∃ q, p = some q ∧ q.addr = a ∧ q.upd v = q.upd w

/-- The write in flight goes to the place of `a`, but to another address. -/
def Clobbers (p : Option (Write α ω)) (a : α) : Prop :=
  ∃ q, p = some q ∧ q.addr ≠ a ∧ M.slot q.addr = M.slot a

/-- What is known of the word at `a`: `v` is in the cache, `m` in the memory. -/
structure WordOk (e : Entry τ) (v m w : ω) (pm pc : Option (Write α ω)) (a : α) : Prop where
  dirty : Holds M e a → e.dirty = true → Agree pc a v w
  clean : Holds M e a → e.dirty = false → Agree pc a v w ∨ Clobbers M pc a
  memory : ¬ (Holds M e a ∧ e.dirty = true) → Agree pm a m w

section

variable (tags : ι → Entry τ) (data : ι × κ → ω) (mem spec : α → ω) (pm pc : Option (Write α ω))

def CoherentOff (l : ι) : Prop :=
  ∀ a, M.line a ≠ l → WordOk M (tags (M.line a)) (data (M.slot a)) (mem a) (spec a) pm pc a

def Coherent : Prop :=
  ∀ a, WordOk M (tags (M.line a)) (data (M.slot a)) (mem a) (spec a) pm pc a

def Current (l : ι) : Prop := ∀ a, M.line a = l → Agree pm a (mem a) (spec a)

end

section Agree

variable {p p' : Option (Write α ω)} {q : Write α ω} {a : α} {v w : ω}

theorem Agree.eq (h : Agree (none : Option (Write α ω)) a v w) : v = w := by
  rcases h with h | ⟨q, hq, -⟩
  · exact h
  · cases hq

theorem Agree.of_eq (h : v = w) : Agree p a v w := .inl h

theorem Agree.widen (hp : p = none ∨ p = p') (h : Agree p a v w) : Agree p' a v w := by
  rcases hp with rfl | rfl
  · exact .inl h.eq
  · exact h

theorem Agree.eq_of_ne (h : Agree (some q) a v w) (ha : q.addr ≠ a) : v = w := by
  rcases h with h | ⟨q', hq', haddr, -⟩
  · exact h
  · cases hq'
    exact absurd haddr ha

theorem Agree.upd_eq (h : Agree (some q) q.addr v w) : q.upd v = q.upd w := by
  rcases h with h | ⟨q', hq', -, hupd⟩
  · rw [h]
  · cases hq'
    exact hupd

/-- The write may be made early. -/
theorem Agree.made (h : Agree (some q) q.addr v w) : Agree (some q) q.addr (q.upd v) w :=
  .inr ⟨q, rfl, rfl, (q.idem v).trans h.upd_eq⟩

variable [DecidableEq α] {spec : α → ω}

/-- The write goes in flight: what was known of a word is still known. -/
theorem Agree.accept (h : Agree (some q) a v (spec a)) :
    Agree (some q) a v (Function.update spec q.addr (q.upd (spec q.addr)) a) := by
  by_cases ha : a = q.addr
  · subst ha
    refine .inr ⟨q, rfl, rfl, ?_⟩
    rw [Function.update_self, q.idem, h.upd_eq]
  · rw [Function.update_of_ne ha]
    exact .of_eq (h.eq_of_ne (Ne.symm ha))

end Agree

section Coherent

variable {M}
variable {tags : ι → Entry τ} {data : ι × κ → ω} {mem spec : α → ω}
variable {pm pc pm' pc' p : Option (Write α ω)} {q : Write α ω} {l : ι}

theorem not_holds_of_invalid {e : Entry τ} {a : α} (h : e.valid = false) : ¬ Holds M e a := by
  intro hholds
  rw [hholds.1] at h
  cases h

theorem Clobbers.widen {a : α} (hp : pc = none ∨ pc = pc') (h : Clobbers M pc a) :
    Clobbers M pc' a := by
  rcases hp with rfl | rfl
  · obtain ⟨q, hq, -⟩ := h
    cases hq
  · exact h

/-- Away from the write in flight nothing is open. -/
theorem WordOk.away {e : Entry τ} {v m w : ω} {a : α} (h : WordOk M e v m w (some q) (some q) a)
    (ha : q.addr ≠ a) (hslot : M.slot q.addr ≠ M.slot a) : WordOk M e v m w none none a where
  dirty hholds hdirty := .of_eq ((h.dirty hholds hdirty).eq_of_ne ha)
  clean hholds hclean := by
    rcases h.clean hholds hclean with h | ⟨q', hq', -, hslot'⟩
    · exact .inl (.of_eq (h.eq_of_ne ha))
    · cases hq'
      exact absurd hslot' hslot
  memory hvictim := .of_eq ((h.memory hvictim).eq_of_ne ha)

theorem slot_ne_of_line {a b : α} (h : M.line a ≠ M.line b) : M.slot a ≠ M.slot b :=
  fun heq => h (congrArg Prod.fst heq)

/-- A write may be in flight that was not known of. -/
theorem Coherent.widen (h : Coherent M tags data mem spec pm pc) (hpm : pm = none ∨ pm = pm')
    (hpc : pc = none ∨ pc = pc') : Coherent M tags data mem spec pm' pc' := by
  intro a
  refine ⟨fun hholds hdirty => ((h a).dirty hholds hdirty).widen hpc, fun hholds hclean => ?_,
    fun hvictim => ((h a).memory hvictim).widen hpm⟩
  exact ((h a).clean hholds hclean).imp (Agree.widen hpc) (Clobbers.widen hpc)

theorem Coherent.off (h : Coherent M tags data mem spec pm pc) (l : ι) :
    CoherentOff M tags data mem spec pm pc l := fun a _ => h a

/-- A line that is not dirty is current in the memory. -/
theorem Coherent.current (h : Coherent M tags data mem spec pm pc)
    (hclean : ¬ ((tags l).valid = true ∧ (tags l).dirty = true)) : Current M mem spec pm l := by
  rintro a rfl
  exact (h a).memory fun hv => hclean ⟨hv.1.1, hv.2⟩

/-- With nothing in flight a line that is there has its words. -/
theorem Coherent.word {a : α} (h : Coherent M tags data mem spec pm none)
    (hholds : Holds M (tags (M.line a)) a) : data (M.slot a) = spec a := by
  cases hdirty : (tags (M.line a)).dirty with
  | true => exact ((h a).dirty hholds hdirty).eq
  | false =>
    rcases (h a).clean hholds hdirty with hagree | ⟨q, hq, -⟩
    · exact hagree.eq
    · cases hq

theorem CoherentOff.congr {tags' : ι → Entry τ} {data' : ι × κ → ω}
    (h : CoherentOff M tags data mem spec pm pc l) (htags : ∀ k, k ≠ l → tags' k = tags k)
    (hdata : ∀ k o, k ≠ l → data' (k, o) = data (k, o)) :
    CoherentOff M tags' data' mem spec pm pc l := by
  intro a ha
  have hslot : data' (M.slot a) = data (M.slot a) := hdata _ _ ha
  rw [htags _ ha, hslot]
  exact h a ha

/-- A line that the memory has needs no entry. -/
theorem CoherentOff.invalid (h : CoherentOff M tags data mem spec pm pc l)
    (hcurrent : Current M mem spec pm l) (hvalid : (tags l).valid = false) :
    Coherent M tags data mem spec pm pc := by
  intro a
  by_cases ha : M.line a = l
  · subst ha
    have hnot : ¬ Holds M (tags (M.line a)) a := not_holds_of_invalid hvalid
    exact ⟨fun hh => absurd hh hnot, fun hh => absurd hh hnot, fun _ => hcurrent a rfl⟩
  · exact h a ha

section Entries

variable [DecidableEq ι]

theorem CoherentOff.fill {d : Bool} {T : τ} (h : CoherentOff M tags data mem spec p p l)
    (hcurrent : Current M mem spec p l)
    (hdata : ∀ a, M.line a = l → M.tag a = T → data (M.slot a) = mem a) :
    Coherent M (Function.update tags l ⟨d, true, T⟩) data mem spec p p := by
  intro a
  by_cases ha : M.line a = l
  · have hmem := hcurrent a ha
    rw [ha, Function.update_self]
    have hagree : T = M.tag a → Agree p a (data (M.slot a)) (spec a) := by
      intro hT
      rw [hdata a ha hT.symm]
      exact hmem
    exact ⟨fun hh _ => hagree hh.2, fun hh _ => .inl (hagree hh.2), fun _ => hmem⟩
  · rw [Function.update_of_ne ha]
    exact h a ha

/-- An entry that is not dirty can be dropped. -/
theorem Coherent.invalidate {e : Entry τ} (h : Coherent M tags data mem spec pm pc)
    (hclean : ¬ ((tags l).valid = true ∧ (tags l).dirty = true)) (he : e.valid = false) :
    Coherent M (Function.update tags l e) data mem spec pm pc := by
  refine CoherentOff.invalid (l := l) ?_ (h.current hclean) (by rw [Function.update_self, he])
  exact (h.off l).congr (fun k hk => Function.update_of_ne hk _ _) fun _ _ _ => rfl

/-- The line of a dirty entry is in the memory, so the entry can be dropped. -/
theorem Coherent.writtenBack {T : τ}
    (h : Coherent M (Function.update tags l ⟨true, true, T⟩) data mem spec p p)
    (hmem : ∀ a, M.line a = l → M.tag a = T → mem a = data (M.slot a)) :
    CoherentOff M tags data mem spec p p l ∧ Current M mem spec p l := by
  constructor
  · exact (h.off l).congr (fun k hk => (Function.update_of_ne hk _ _).symm) fun _ _ _ => rfl
  · intro a ha
    have hword := h a
    rw [ha, Function.update_self] at hword
    by_cases hT : T = M.tag a
    · rw [hmem a ha hT.symm]
      exact hword.dirty ⟨rfl, hT⟩ rfl
    · exact hword.memory fun hh => hT hh.1.2

end Entries

section Memory

variable [DecidableEq α]

/-- A word of a dirty line may be anything in the memory. -/
theorem Coherent.victim {b : α} (h : Coherent M tags data mem spec pm pc)
    (hholds : Holds M (tags (M.line b)) b) (hdirty : (tags (M.line b)).dirty = true) (v : ω) :
    Coherent M tags data (Function.update mem b v) spec pm pc := by
  intro a
  by_cases ha : a = b
  · subst ha
    exact ⟨(h a).dirty, (h a).clean, fun hv => absurd ⟨hholds, hdirty⟩ hv⟩
  · rw [Function.update_of_ne ha]
    exact h a

/-- A write is taken that is to be made in the cache. -/
theorem Coherent.accept (h : Coherent M tags data mem spec (some q) (some q)) :
    Coherent M tags data mem (Function.update spec q.addr (q.upd (spec q.addr))) (some q)
      (some q) := by
  intro a
  refine ⟨fun hholds hdirty => ((h a).dirty hholds hdirty).accept, fun hholds hclean => ?_,
    fun hvictim => ((h a).memory hvictim).accept⟩
  exact ((h a).clean hholds hclean).imp_left Agree.accept

/-- A write is taken that is to be made in the memory. -/
theorem Coherent.acceptMemory (h : Coherent M tags data mem spec none none)
    (hnot : ¬ Holds M (tags (M.line q.addr)) q.addr) :
    Coherent M tags data mem (Function.update spec q.addr (q.upd (spec q.addr))) (some q)
      none := by
  intro a
  have hspec : Holds M (tags (M.line a)) a →
      Function.update spec q.addr (q.upd (spec q.addr)) a = spec a := by
    intro hholds
    apply Function.update_of_ne
    rintro rfl
    exact hnot hholds
  refine ⟨fun hholds hdirty => ?_, fun hholds hclean => ?_, fun hvictim => ?_⟩
  · rw [hspec hholds]
    exact (h a).dirty hholds hdirty
  · rw [hspec hholds]
    exact (h a).clean hholds hclean
  · exact (((h a).memory hvictim).widen (.inl rfl)).accept

/-- The write that was taken is made in the memory. -/
theorem Coherent.memoryWritten (h : Coherent M tags data mem spec (some q) pc)
    (hspec : q.upd (spec q.addr) = spec q.addr) :
    Coherent M tags data (Function.update mem q.addr (q.upd (mem q.addr))) spec none pc := by
  intro a
  refine ⟨(h a).dirty, (h a).clean, fun hvictim => .of_eq ?_⟩
  have hagree := (h a).memory hvictim
  by_cases ha : a = q.addr
  · subst ha
    rw [Function.update_self, hagree.upd_eq, hspec]
  · rw [Function.update_of_ne ha]
    exact hagree.eq_of_ne (Ne.symm ha)

end Memory

section Data

variable [DecidableEq ι] [DecidableEq κ]

/-- The write is made in the data before it is known whether its line is there. -/
theorem Coherent.prewrite (h : Coherent M tags data mem spec pm (some q))
    (hvictim : (tags (M.line q.addr)).valid = true → (tags (M.line q.addr)).dirty = true →
      (tags (M.line q.addr)).tag = M.tag q.addr) :
    Coherent M tags (Function.update data (M.slot q.addr) (q.upd (data (M.slot q.addr)))) mem spec
      pm (some q) := by
  intro a
  by_cases hslot : M.slot a = M.slot q.addr
  · by_cases ha : a = q.addr
    · subst ha
      rw [Function.update_self]
      refine ⟨fun hholds hdirty => ((h _).dirty hholds hdirty).made, fun hholds hclean => ?_,
        (h _).memory⟩
      exact ((h _).clean hholds hclean).imp_left Agree.made
    · -- the place belongs to another address, which is not in a dirty line
      have hline : M.line a = M.line q.addr := congrArg Prod.fst hslot
      refine ⟨fun hholds hdirty => absurd ?_ ha,
        fun _ _ => .inr ⟨q, rfl, Ne.symm ha, hslot.symm⟩, (h a).memory⟩
      rw [hline] at hholds hdirty
      have htag := hvictim hholds.1 hdirty
      exact M.ext _ _ (hholds.2.symm.trans htag) hline (congrArg Prod.snd hslot)
  · rw [Function.update_of_ne hslot]
    exact h a

/-- A write to a line that is not there may be in the data or not. -/
theorem Coherent.discard (h : Coherent M tags data mem spec pm (some q))
    (hvalid : (tags (M.line q.addr)).valid = false) (v : ω) :
    Coherent M tags (Function.update data (M.slot q.addr) v) mem spec pm none := by
  intro a
  by_cases hline : M.line a = M.line q.addr
  · have hnot : ¬ Holds M (tags (M.line a)) a := by
      rw [hline]
      exact not_holds_of_invalid hvalid
    exact ⟨fun hh => absurd hh hnot, fun hh => absurd hh hnot, (h a).memory⟩
  · have hslot := slot_ne_of_line hline
    have ha : q.addr ≠ a := fun heq => hline (by rw [heq])
    rw [Function.update_of_ne hslot]
    refine ⟨fun hholds hdirty => .of_eq (((h a).dirty hholds hdirty).eq_of_ne ha),
      fun hholds hclean => ?_, (h a).memory⟩
    rcases (h a).clean hholds hclean with hagree | ⟨q', hq', -, hslot'⟩
    · exact .inl (.of_eq (hagree.eq_of_ne ha))
    · cases hq'
      exact absurd hslot'.symm hslot

/-- A write to a line that is there is made in the data, and the entry gets dirty. -/
theorem Coherent.hit (h : Coherent M tags data mem spec (some q) (some q))
    (hspec : q.upd (spec q.addr) = spec q.addr)
    (hholds : Holds M (tags (M.line q.addr)) q.addr) :
    Coherent M (Function.update tags (M.line q.addr) ⟨true, true, M.tag q.addr⟩)
      (Function.update data (M.slot q.addr) (q.upd (data (M.slot q.addr)))) mem spec none none := by
  intro a
  by_cases hline : M.line a = M.line q.addr
  · rw [hline, Function.update_self]
    by_cases htag : M.tag q.addr = M.tag a
    · -- a word of the line that is written
      refine ⟨fun _ _ => .of_eq ?_, fun _ hclean => (by cases hclean),
        fun hv => absurd ⟨⟨rfl, htag⟩, rfl⟩ hv⟩
      have hholds' : Holds M (tags (M.line a)) a := by
        rw [hline]
        exact ⟨hholds.1, hholds.2.trans htag⟩
      have hagree : Agree (some q) a (data (M.slot a)) (spec a) := by
        by_cases hdirty : (tags (M.line a)).dirty = true
        · exact (h a).dirty hholds' hdirty
        · rcases (h a).clean hholds' (by simpa using hdirty) with hagree | ⟨q', hq', hne, hslot⟩
          · exact hagree
          · cases hq'
            exact absurd (M.ext _ _ htag hline.symm (congrArg Prod.snd hslot)) hne
      by_cases hslot : M.slot a = M.slot q.addr
      · have ha : a = q.addr := M.ext _ _ htag.symm hline (congrArg Prod.snd hslot)
        subst ha
        rw [Function.update_self, hagree.upd_eq, hspec]
      · rw [Function.update_of_ne hslot]
        exact hagree.eq_of_ne fun heq => hslot (by rw [heq])
    · -- another line at its place
      refine ⟨fun hh => absurd hh.2 htag, fun hh => absurd hh.2 htag, fun _ => .of_eq ?_⟩
      have hnot : ¬ (Holds M (tags (M.line a)) a ∧ (tags (M.line a)).dirty = true) := by
        rintro ⟨hh, -⟩
        rw [hline] at hh
        exact htag (hholds.2.symm.trans hh.2)
      exact ((h a).memory hnot).eq_of_ne fun heq => htag (by rw [heq])
  · have hslot := slot_ne_of_line hline
    rw [Function.update_of_ne hline, Function.update_of_ne hslot]
    exact (h a).away (fun heq => hline (by rw [heq])) hslot.symm

end Data

end Coherent

end WriteBack
