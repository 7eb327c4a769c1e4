import Xtc.Lib.CString

/-!
# Zposix — the current directory of `libxtcapp/zposix.c`

The file layer keeps one array `__cwd` of 128 characters; `chdir` writes it and `makefullpath` puts
it in front of a relative path.  Arrays are the ones of `CString`: a copy that does not fit its
array has no result.
-/

namespace Xtc

namespace Zposix

open CString

/-- `sizeof(__cwd)`, and of the local `cwd` of `makefullpath` and the `path` of `open`. -/
def cwdSize : Nat := 128

def posixInit (cwd : List Char) : List Char := (cwd.set 0 '/').set 1 nul

/-- The array `__cwd` when the program starts, and `__posix_init` over it. -/
def initial : List Char := posixInit (List.replicate cwdSize nul)

def getcwd (buf : List Char) (size : Nat) (cwd : List Char) : Option (List Char) :=
  strncpy buf (string cwd) size

/-- `makefullpath`; `dest` and the local array `here` hold anything before the call. -/
def makefullpath (dest here pathname cwd : List Char) : Option (List Char) :=
  if pathname.head? = some '/' then
    -- Full path
    strcpy dest pathname
  else do
    let here ← getcwd here cwdSize cwd
    let len := strlen here
    let dest ← strcpy dest (string here)
    if len ≠ 1 then
      let dest ← write dest len ['/']
      let dest ← write dest (len + 1) [nul]
      strcatAt dest (len + 1) pathname
    else
      strcatAt dest len pathname

/-- The loop `while (len>0 && __cwd[len]=='/')` of `chdir`. -/
def strip (cwd : List Char) : Nat → List Char
  | 0 => cwd
  | len + 1 => if cwd[len + 1]? = some '/' then strip (cwd.set (len + 1) nul) len else cwd

def chdirCopy (path cwd : List Char) : Option (List Char) :=
  if path.head? = some '/' then
    strcpy cwd path
  else if strlen cwd = 1 then
    -- Root
    strcat cwd path
  else do
    let cwd ← strcat cwd ['/']
    strcat cwd path

def chdir (path cwd : List Char) : Option (List Char) := do
  let cwd ← chdirCopy path cwd
  -- Strip last "/" if present.
  return strip cwd (strlen cwd)

structure Path where
  chars : List Char
  nonempty : chars ≠ []
  noNul : nul ∉ chars

/-- A row of calls; each of them has to fit the array. -/
def chdirs (paths : List Path) (cwd : List Char) : Option (List Char) :=
  paths.foldlM (fun cwd path => chdir path.chars cwd) cwd

/-- A directory, one slash and a path; the root already ends with the slash. -/
def join (dir path : List Char) : List Char :=
  if dir = ['/'] then '/' :: path else dir ++ '/' :: path

/-! ## What a call writes -/

variable {cwd cwd' dir : List Char}

def moved (dir path : List Char) : List Char :=
  if path.head? = some '/' then path else join dir path

theorem head?_join (hdir : dir.head? = some '/') (path : List Char) :
    (join dir path).head? = some '/' := by
  unfold join
  split
  · rfl
  · rw [List.head?_append, hdir]
    rfl

theorem head?_moved (hdir : dir.head? = some '/') (path : List Char) :
    (moved dir path).head? = some '/' := by
  unfold moved
  split
  · assumption
  · exact head?_join hdir path

theorem eq_root_of_length (hdir : dir.head? = some '/') (h : dir.length = 1) : dir = ['/'] := by
  match dir with
  | [c] => simpa using hdir

/-- The loop looks at the NUL behind the string first, and stops there. -/
theorem strip_strlen (h : Holds cwdSize cwd dir) : strip cwd (strlen cwd) = cwd := by
  rw [h.strlen]
  match hl : dir.length with
  | 0 => rfl
  | n + 1 =>
    have hnul := h.getElem?_length
    rw [hl] at hnul
    rw [strip, hnul, if_neg (by decide)]

theorem strcat_holds {src : List Char} (h : Holds cwdSize cwd dir) (hsrc : nul ∉ src)
    (hc : strcat cwd src = some cwd') : Holds cwdSize cwd' (dir ++ src) := by
  have hroom := h.room_of_strcatAt (Nat.zero_le _) hc
  obtain ⟨cwd₁, hcat, hholds⟩ := h.strcatAt (Nat.zero_le _) hsrc hroom
  rw [strcat, hcat] at hc
  cases hc
  exact hholds

theorem chdir_holds (h : Holds cwdSize cwd dir) (hdir : dir.head? = some '/') (path : Path)
    (hc : chdir path.chars cwd = some cwd') : Holds cwdSize cwd' (moved dir path.chars) := by
  obtain ⟨cwd₁, hwrite, hret⟩ := Option.bind_eq_some_iff.mp hc
  suffices hholds : Holds cwdSize cwd₁ (moved dir path.chars) by
    rw [strip_strlen hholds] at hret
    cases hret
    exact hholds
  unfold moved
  unfold chdirCopy at hwrite
  split at hwrite
  case isTrue habs =>
    rw [if_pos habs]
    have hroom := length_lt_of_strcpy hwrite
    obtain ⟨cwd₂, hcpy, hholds⟩ := holds_strcpy cwd path.noNul hroom
    rw [hwrite] at hcpy
    cases hcpy
    exact h.length ▸ hholds
  case isFalse hrel =>
    rw [if_neg hrel, join]
    split at hwrite
    case isTrue hone =>
      rw [h.strlen] at hone
      have hroot := eq_root_of_length hdir hone
      rw [if_pos hroot]
      have hholds := strcat_holds h path.noNul hwrite
      rwa [hroot] at hholds
    case isFalse hone =>
      rw [h.strlen] at hone
      rw [if_neg fun hroot => hone (by rw [hroot]; rfl)]
      obtain ⟨cwd₂, hslash, hcat⟩ := Option.bind_eq_some_iff.mp hwrite
      have hholds := strcat_holds (strcat_holds h (by decide) hslash) path.noNul hcat
      rwa [List.append_assoc] at hholds

/-- A relative path is put behind the current directory. -/
theorem makefullpath_holds {dest here path : List Char} (h : Holds cwdSize cwd dir)
    (hdir : dir.head? = some '/') (hdest : dest.length = cwdSize) (hhere : here.length = cwdSize)
    (hrel : path.head? ≠ some '/') (hpath : nul ∉ path) (hroom : (join dir path).length < cwdSize) :
    ∃ full, makefullpath dest here path cwd = some full ∧ Holds cwdSize full (join dir path) := by
  have hlt := h.length_lt
  obtain ⟨here₁, hget, hhere₁⟩ := holds_strncpy here h.noNul (by omega)
  obtain ⟨dest₁, hcpy, hdest₁⟩ := holds_strcpy dest h.noNul (by omega)
  rw [hdest] at hdest₁
  have hget' : getcwd here cwdSize cwd = some here₁ := by rw [getcwd, h.string, ← hhere, hget]
  rw [makefullpath, if_neg hrel, hget']
  simp only [Option.bind_eq_bind, Option.bind_some, hhere₁.string, hhere₁.strlen, hcpy]
  unfold join at hroom ⊢
  by_cases hone : dir.length = 1
  · have hroot := eq_root_of_length hdir hone
    rw [if_pos hroot, List.length_cons] at hroom
    rw [if_neg (not_not.mpr hone), if_pos hroot]
    obtain ⟨full, hcat, hfull⟩ := hdest₁.strcatAt (Nat.le_refl _) hpath (by omega)
    rw [hroot] at hfull
    exact ⟨full, hcat, hfull⟩
  · have hroot : dir ≠ ['/'] := fun hroot => hone (by rw [hroot]; rfl)
    rw [if_neg hroot, List.length_append, List.length_cons] at hroom
    rw [if_pos hone, if_neg hroot]
    obtain ⟨dest₂, dest₃, hslash, hnul, hdest₃⟩ := hdest₁.push (c := '/') (by decide) (by omega)
    have hlen : (dir ++ ['/']).length = dir.length + 1 := List.length_append
    obtain ⟨full, hcat, hfull⟩ := hdest₃.strcatAt (Nat.le_of_eq hlen.symm) hpath (by omega)
    rw [List.append_assoc] at hfull
    refine ⟨full, ?_, hfull⟩
    simp only [hslash, hnul, Option.bind_some]
    exact hcat

/-! ## Rows of calls -/

theorem holds_initial : Holds cwdSize initial ['/'] := by
  refine ⟨?_, by decide, List.replicate 126 nul, rfl⟩
  rw [initial, posixInit, List.length_set, List.length_set, List.length_replicate]

def movedAll (dir : List Char) (paths : List Path) : List Char :=
  paths.foldl (fun dir path => moved dir path.chars) dir

theorem chdirs_holds (paths : List Path) (h : Holds cwdSize cwd dir) (hdir : dir.head? = some '/')
    (hc : chdirs paths cwd = some cwd') :
    Holds cwdSize cwd' (movedAll dir paths) ∧ (movedAll dir paths).head? = some '/' := by
  induction paths generalizing cwd dir with
  | nil =>
    cases hc
    exact ⟨h, hdir⟩
  | cons path paths ih =>
    rw [chdirs, List.foldlM_cons] at hc
    obtain ⟨cwd₁, hstep, hrest⟩ := Option.bind_eq_some_iff.mp hc
    exact ih (chdir_holds h hdir path hstep) (head?_moved hdir path.chars) hrest

/-- A directory that starts with a slash and ends with one only at the root. -/
structure Normalised (dir : List Char) : Prop where
  absolute : dir.head? = some '/'
  unslashed : dir = ['/'] ∨ dir.getLast? ≠ some '/'

/-- Every relative path that fits is put behind the directory, one slash between them. -/
def Joins (cwd : List Char) : Prop :=
  ∀ dest here : List Char, ∀ path : Path, dest.length = cwdSize → here.length = cwdSize →
    path.chars.head? ≠ some '/' → (join (string cwd) path.chars).length < cwdSize →
    ∃ full, makefullpath dest here path.chars cwd = some full ∧
      string full = join (string cwd) path.chars

/-- A path that is the root or does not end with a slash. -/
def Path.Unslashed (path : Path) : Prop := path.chars = ['/'] ∨ path.chars.getLast? ≠ some '/'

theorem getLast?_join {path : List Char} (h : path ≠ []) :
    (join dir path).getLast? = path.getLast? := by
  unfold join
  split
  · rw [List.getLast?_cons_of_ne_nil h]
  · rw [List.getLast?_append_cons, List.getLast?_cons_of_ne_nil h]

theorem moved_unslashed_iff (path : Path) :
    (moved dir path.chars = ['/'] ∨ (moved dir path.chars).getLast? ≠ some '/') ↔
      path.Unslashed := by
  unfold moved
  by_cases habs : path.chars.head? = some '/'
  · rw [if_pos habs]
    exact Iff.rfl
  · have hpath : path.chars ≠ ['/'] := fun heq => habs (by rw [heq]; rfl)
    have hjoin : join dir path.chars ≠ ['/'] := by
      have hne := List.length_pos_of_ne_nil path.nonempty
      intro heq
      have hlen := congrArg List.length heq
      unfold join at hlen
      split at hlen
      · simp only [List.length_cons, List.length_nil] at hlen
        omega
      · simp only [List.length_append, List.length_cons, List.length_nil] at hlen
        omega
    rw [if_neg habs, getLast?_join path.nonempty, Path.Unslashed, or_iff_right hjoin,
      or_iff_right hpath]

/-- The current directory is normalised, and so are the paths made from it, exactly when the last
call did not end its path with a slash: the loop that strips the slash never does. -/
theorem chdirs_normalised_iff (paths : List Path) (h : chdirs paths initial = some cwd) :
    Normalised (string cwd) ∧ Joins cwd ↔ ∀ path ∈ paths.getLast?, path.Unslashed := by
  obtain ⟨hholds, habs⟩ := chdirs_holds paths holds_initial rfl h
  have hjoins : Joins cwd := by
    intro dest here path hdest hhere hrel hroom
    rw [hholds.string] at hroom ⊢
    obtain ⟨full, hmake, hfull⟩ :=
      makefullpath_holds hholds habs hdest hhere hrel path.noNul hroom
    exact ⟨full, hmake, hfull.string⟩
  have hnorm : Normalised (string cwd) ↔
      movedAll ['/'] paths = ['/'] ∨ (movedAll ['/'] paths).getLast? ≠ some '/' := by
    rw [hholds.string]
    exact ⟨Normalised.unslashed, fun hun => ⟨habs, hun⟩⟩
  rw [and_iff_left hjoins, hnorm]
  -- only the last call decides
  induction paths using List.reverseRecOn with
  | nil => simp [movedAll]
  | append_singleton paths path =>
    rw [movedAll, List.foldl_append, List.foldl_cons, List.foldl_nil, moved_unslashed_iff]
    simp

/-- `chdir("/mem"); chdir("a");` leaves `/mem/a`. -/
theorem chdirs_mem_a :
    chdirs [⟨"/mem".toList, by decide, by decide⟩, ⟨"a".toList, by decide, by decide⟩] initial =
        some ("/mem/a".toList ++ List.replicate 122 nul) ∧
      Normalised (string ("/mem/a".toList ++ List.replicate 122 nul)) ∧
      Joins ("/mem/a".toList ++ List.replicate 122 nul) := by
  have h : chdirs [⟨"/mem".toList, by decide, by decide⟩, ⟨"a".toList, by decide, by decide⟩]
      initial = some ("/mem/a".toList ++ List.replicate 122 nul) := by decide +kernel
  refine ⟨h, (chdirs_normalised_iff _ h).mpr ?_⟩
  intro path hpath
  cases hpath
  exact Or.inr (by decide)

/-- `chdir("foo/");` leaves the slash, and the path made of `x` has two of them. -/
theorem chdir_foo_slash :
    ∃ cwd, chdirs [⟨"foo/".toList, by decide, by decide⟩] initial = some cwd ∧
      string cwd = "/foo/".toList ∧ ¬Normalised (string cwd) ∧
      (makefullpath initial initial "x".toList cwd).map string = some "/foo//x".toList := by
  refine ⟨"/foo/".toList ++ List.replicate 123 nul, by decide +kernel, by decide +kernel, ?_,
    by decide +kernel⟩
  intro hnorm
  have hun := hnorm.unslashed
  revert hun
  decide +kernel

end Zposix

end Xtc
