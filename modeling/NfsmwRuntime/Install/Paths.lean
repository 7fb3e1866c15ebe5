import Mathlib.Data.List.Basic
import NfsmwRuntime.Library.Files
import NfsmwRuntime.Install.Identity

/-!
# Paths that a recipe and a package may name

A recipe, a package and a journal name files by paths. Only relative paths without empty
components and without dots are followed, so that what is installed stays in the game's folder.
An archive's names pass another check, which is older and does not look for control characters.
-/

namespace NfsmwRuntime.Install

open Library

/-! ## Checks on paths -/

/-- The first part of a path that is not a name. -/
def badComponent (value : CString) : Option CString :=
  (value.splitOn 47).find? fun part => part = [] ∨ part = cstr "." ∨ part = cstr ".."

def validateRelativePath (label value : CString) : Except Failure Unit :=
  if value = [] then .error (.recipe (label ++ cstr " must be a non-empty string"))
  else if 0 ∈ value then .error (.recipe (label ++ cstr " contains a NUL byte"))
  else if 92 ∈ value then
    .error (.recipe (label ++ cstr " uses a backslash; separators must be '/'"))
  else if value.any (· < 32) then
    .error (.recipe (label ++ cstr " contains a control character"))
  else if value.head? = some 47 then
    .error (.recipe (label ++ cstr " must be relative, got an absolute path"))
  else match badComponent value with
    | none => .ok ()
    | some [] => .error (.recipe (label ++ cstr " has an empty path component"))
    | some part =>
      .error (.recipe (label ++ cstr " contains a '" ++ part ++ cstr "' component"))

/-- `os.path.join` of two paths. -/
def join (root relative : CString) : CString :=
  if relative.head? = some 47 then relative
  else if root = [] ∨ root.getLast? = some 47 then root ++ relative
  else root ++ 47 :: relative

/-- What one component does to those before it. -/
def normComponent (absolute : Bool) (names : List CString) (part : CString) : List CString :=
  if part = [] ∨ part = cstr "." then names
  else if part ≠ cstr ".." ∨ (absolute = false ∧ names = []) ∨
      names.getLast? = some (cstr "..") then
    names ++ [part]
  else names.dropLast

/-- `os.path.normpath`. Two slashes at the beginning stay two. -/
def normpath (path : CString) : CString :=
  let slashes := if path.head? = some 47 then
    (if (cstr "//").isPrefixOf path ∧ ¬ (cstr "///").isPrefixOf path then 2 else 1) else 0
  let names := (path.splitOn 47).foldl (normComponent (path.head? = some 47)) []
  let text := List.replicate slashes 47 ++ (cstr "/").intercalate names
  if text = [] then cstr "." else text

section SafeJoin

variable (realpath : CString → CString)

def safeJoin (root relative label : CString) : Except Failure CString := do
  validateRelativePath label relative
  let target := normpath (join (realpath root) relative)
  check (target = realpath root ∨ realpath root ++ [47] <+: target)
    (.eapx (label ++ cstr " escapes the root directory"))
  .ok target

end SafeJoin

/-- Normalise a zip member name, rejecting anything unsafe. -/
def safeZipName (name : CString) : Option CString :=
  if name = [] ∨ name.getLast? = some 47 then none
  else if 0 ∈ name ∨ 92 ∈ name then none
  else if name.head? = some 47 ∨ 58 ∈ name then none
  else if badComponent name ≠ none then none
  else some ((cstr "/").intercalate (name.splitOn 47))

/-! ## What the checks accept -/

/-- A component that leads one folder down. -/
def Proper (part : CString) : Prop := part ≠ [] ∧ part ≠ cstr "." ∧ part ≠ cstr ".."

instance (part : CString) : Decidable (Proper part) :=
  inferInstanceAs (Decidable (part ≠ [] ∧ part ≠ cstr "." ∧ part ≠ cstr ".."))

section Accepted

variable {value label root : CString}

theorem badComponent_eq_none :
    badComponent value = none ↔ ∀ part ∈ value.splitOn 47, Proper part := by
  simp only [badComponent, List.find?_eq_none, decide_eq_true_eq, not_or, Proper]

/-- A path of names does not begin with a slash, nor does it end with one. -/
theorem ends_of_proper (h : ∀ part ∈ value.splitOn 47, Proper part) :
    value ≠ [] ∧ value.head? ≠ some 47 ∧ value.getLast? ≠ some 47 := by
  refine ⟨?_, ?_, ?_⟩
  · rintro rfl
    exact (h [] (by simp)).1 rfl
  · intro hhead
    obtain ⟨rest, rfl⟩ := List.head?_eq_some_iff.mp hhead
    have hsplit : (47 :: rest).splitOn 47 = [[]] ++ rest.splitOn 47 :=
      List.splitOn_append_cons_self [] rest
    exact (h [] (by simp [hsplit])).1 rfl
  · intro hlast
    obtain ⟨front, rfl⟩ := List.getLast?_eq_some_iff.mp hlast
    have hsplit : (front ++ [47]).splitOn 47 = front.splitOn 47 ++ [[]] :=
      List.splitOn_append_cons_self front []
    exact (h [] (by simp [hsplit])).1 rfl

theorem validateRelativePath_eq_ok : validateRelativePath label value = .ok () ↔
    (∀ b ∈ value, 32 ≤ b ∧ b ≠ 92) ∧ ∀ part ∈ value.splitOn 47, Proper part := by
  rw [← badComponent_eq_none]
  constructor
  · intro h
    unfold validateRelativePath at h
    split_ifs at h with hnil hnul hslash hcontrol hhead
    refine ⟨fun b hb => ⟨?_, fun heq => hslash (heq ▸ hb)⟩, ?_⟩
    · by_contra hlt
      exact hcontrol (List.any_eq_true.mpr ⟨b, hb, by simpa using hlt⟩)
    · split at h
      · assumption
      · cases h
      · cases h
  · rintro ⟨hbytes, hnone⟩
    obtain ⟨hnil, hhead, -⟩ := ends_of_proper (badComponent_eq_none.mp hnone)
    have hnul : (0 : UInt8) ∉ value := fun hmem => absurd (hbytes 0 hmem).1 (by decide)
    have hslash : (92 : UInt8) ∉ value := fun hmem => (hbytes 92 hmem).2 rfl
    have hcontrol : ¬ (value.any (· < 32)) = true := by
      simpa using fun b hb => (hbytes b hb).1
    rw [validateRelativePath, if_neg hnil, if_neg hnul, if_neg hslash, if_neg hcontrol,
      if_neg hhead, hnone]

theorem safeZipName_eq_some {name : CString} : safeZipName value = some name ↔
    name = value ∧ (∀ b ∈ value, b ≠ 0 ∧ b ≠ 92 ∧ b ≠ 58) ∧
      ∀ part ∈ value.splitOn 47, Proper part := by
  have hjoin : (cstr "/").intercalate (value.splitOn 47) = value := List.intercalate_splitOn 47
  rw [← badComponent_eq_none, safeZipName, hjoin]
  constructor
  · intro h
    split_ifs at h with hends hbytes hhead hbad
    obtain rfl := Option.some.inj h
    refine ⟨rfl, fun b hb => ⟨?_, ?_, ?_⟩, not_not.mp hbad⟩
    · exact fun heq => hbytes (.inl (heq ▸ hb))
    · exact fun heq => hbytes (.inr (heq ▸ hb))
    · exact fun heq => hhead (.inr (heq ▸ hb))
  · rintro ⟨rfl, hbytes, hnone⟩
    obtain ⟨hnil, hhead, hlast⟩ := ends_of_proper (badComponent_eq_none.mp hnone)
    rw [if_neg (not_or.mpr ⟨hnil, hlast⟩), if_neg, if_neg, if_neg (not_not.mpr hnone)]
    · exact not_or.mpr ⟨hhead, fun hmem => (hbytes 58 hmem).2.2 rfl⟩
    · exact not_or.mpr ⟨fun hmem => (hbytes 0 hmem).1 rfl, fun hmem => (hbytes 92 hmem).2.1 rfl⟩

end Accepted

/-! ## Following a path -/

/-- An absolute path without links, dots and empty components. -/
def Canonical (path : CString) : Prop :=
  ∃ names : List CString, (∀ name ∈ names, Proper name ∧ 47 ∉ name) ∧
    path = 47 :: (cstr "/").intercalate names

section Follow

variable {root value label target : CString} {realpath : CString → CString}

theorem foldl_normComponent {names parts : List CString} {absolute : Bool}
    (h : ∀ part ∈ parts, Proper part) :
    parts.foldl (normComponent absolute) names = names ++ parts := by
  induction parts generalizing names with
  | nil => simp
  | cons part parts ih =>
    obtain ⟨hpart, hparts⟩ := List.forall_mem_cons.mp h
    have hstep : normComponent absolute names part = names ++ [part] := by
      rw [normComponent, if_neg (not_or.mpr ⟨hpart.1, hpart.2.1⟩), if_pos (.inl hpart.2.2)]
    rw [List.foldl_cons, hstep, ih hparts, List.append_assoc, List.singleton_append]

/-- An absolute path of names is normal. -/
theorem normpath_absolute (h : ∀ part ∈ value.splitOn 47, Proper part) :
    normpath (47 :: value) = 47 :: value := by
  obtain ⟨-, hhead, -⟩ := ends_of_proper h
  have hsplit : (47 :: value).splitOn 47 = [] :: value.splitOn 47 :=
    List.splitOn_append_cons_self [] value
  have hslashes : ¬ ((cstr "//").isPrefixOf (47 :: value) = true ∧
      ¬ (cstr "///").isPrefixOf (47 :: value) = true) := by
    rintro ⟨htwo, -⟩
    obtain ⟨rest, hrest⟩ := List.isPrefixOf_iff_prefix.mp htwo
    have htext : cstr "//" = [47, 47] := by decide
    rw [htext] at hrest
    exact hhead (by rw [← List.tail_eq_of_cons_eq hrest]; rfl)
  have hnames : ((47 :: value).splitOn 47).foldl
      (normComponent ((47 :: value).head? = some 47)) [] = value.splitOn 47 := by
    rw [hsplit, List.foldl_cons, normComponent, if_pos (.inl rfl), foldl_normComponent h,
      List.nil_append]
  have hjoin : (cstr "/").intercalate (value.splitOn 47) = value := List.intercalate_splitOn 47
  unfold normpath
  dsimp only
  rw [hnames, hjoin, List.head?_cons, if_pos rfl, if_neg hslashes]
  simp

theorem splitOn_canonical {names : List CString} (hne : names ≠ [])
    (hnames : ∀ name ∈ names, Proper name ∧ (47 : UInt8) ∉ name) :
    ((cstr "/").intercalate names).splitOn 47 = names :=
  List.splitOn_intercalate 47 (fun name hname => (hnames name hname).2) hne

theorem normpath_join (hroot : Canonical root) (hparts : ∀ part ∈ value.splitOn 47, Proper part) :
    normpath (join root value) = if root = [47] then 47 :: value else root ++ 47 :: value := by
  obtain ⟨-, hhead, -⟩ := ends_of_proper hparts
  obtain ⟨names, hnames, rfl⟩ := hroot
  by_cases hempty : names = []
  · subst hempty
    exact (congrArg normpath ((if_neg hhead).trans (if_pos (.inr rfl)))).trans
      (normpath_absolute hparts)
  · have htext := splitOn_canonical hempty hnames
    generalize (cstr "/").intercalate names = text at htext ⊢
    have hproper : ∀ part ∈ text.splitOn 47, Proper part :=
      htext.symm ▸ fun name hname => (hnames name hname).1
    obtain ⟨hnil, -, hlast⟩ := ends_of_proper hproper
    have hjoin : join (47 :: text) value = 47 :: (text ++ 47 :: value) := by
      have hend : (47 :: text).getLast? = text.getLast? := by
        rw [List.getLast?_cons, List.getLast?_eq_some_getLast hnil]
        rfl
      rw [join, if_neg hhead, if_neg (not_or.mpr ⟨List.cons_ne_nil _ _, hend ▸ hlast⟩),
        List.cons_append]
    have hsplit : (text ++ 47 :: value).splitOn 47 = text.splitOn 47 ++ value.splitOn 47 :=
      List.splitOn_append_cons_self text value
    rw [hjoin, if_neg (by simpa using hnil), List.cons_append]
    exact normpath_absolute (hsplit ▸ List.forall_mem_append.mpr ⟨hproper, hparts⟩)

/-- A path is followed exactly if it is a path of names, and then it leads below the root: the
check of where it leads finds nothing that the first check has not. Nothing can be installed to
the root of the file system. -/
theorem safeJoin_eq_ok (hroot : Canonical (realpath root)) :
    safeJoin realpath root value label = .ok target ↔
      validateRelativePath label value = .ok () ∧ realpath root ≠ [47] ∧
        target = realpath root ++ 47 :: value := by
  simp only [safeJoin, bind_eq_ok, check_eq_ok]
  constructor
  · rintro ⟨_, hvalid, _, hcheck, htarget⟩
    obtain rfl := Except.ok.inj htarget
    obtain ⟨-, hparts⟩ := validateRelativePath_eq_ok.mp hvalid
    obtain ⟨hnil, hhead, -⟩ := ends_of_proper hparts
    rw [normpath_join hroot hparts] at hcheck ⊢
    split_ifs at hcheck ⊢ with htop
    · -- below the root of the file system, two slashes are looked for
      rw [htop] at hcheck
      rcases hcheck with h | ⟨rest, hrest⟩
      · exact absurd (List.tail_eq_of_cons_eq h) hnil
      · exact absurd (by rw [← List.tail_eq_of_cons_eq hrest]; rfl) hhead
    · exact ⟨hvalid, htop, rfl⟩
  · rintro ⟨hvalid, hne, rfl⟩
    obtain ⟨-, hparts⟩ := validateRelativePath_eq_ok.mp hvalid
    rw [normpath_join hroot hparts, if_neg hne]
    exact ⟨(), hvalid, (), .inr ⟨value, by simp⟩, rfl⟩

theorem safeJoin_eq_ok_sample :
    safeJoin id (cstr "/roms/nfsmw") (cstr "lib/main.so") (cstr "path") =
      .ok (cstr "/roms/nfsmw/lib/main.so") :=
  (safeJoin_eq_ok ⟨[cstr "roms", cstr "nfsmw"], by decide, by decide⟩).mpr
    ⟨by decide, by decide, by decide⟩

end Follow

end NfsmwRuntime.Install
