import NfsmwRuntime.Launch.Audio

/-!
# Where FMOD's files are

FMOD asks the runtime for its files by name. The prepared sounds are below `NFSMW_AUDIO_ROOT`,
and FMOD spells one name in several ways: with a slash in front or not, and with or without
the folder that the sounds were published in.

A name is refused if it contains two dots in a row. So a path that is handed out goes
nowhere but down from the folder of the sounds, and it is the same for all spellings.
-/

namespace NfsmwRuntime.Fmod

open Library Launch

/-- Does the needle occur in the text? -/
def strstr (text needle : CString) : Bool := text.tails.any needle.isPrefixOf

/-- `relative`, the name below the folder that the sounds were published in. -/
def relativeName (name : CString) : Option CString :=
  let name := name.dropWhile (· == slash)
  if soundsStart.isPrefixOf name then some (name.drop (cstr "published/").length)
  else if (cstr "sounds/").isPrefixOf name then some name
  else none

/-- The contents of the buffer if 0 is returned. -/
def nfsmwFmodAudioPath (root name : Option CString) (size : Nat) : Option (List UInt8) :=
  match root, name with
  | some root, some name =>
    if root = [] ∨ strstr name (cstr "..") then none
    else (relativeName name).bind fun relative =>
      let (written, path) := snprintf size (root ++ cstr "/published/" ++ relative)
      if written ≥ 0 ∧ written < size then some path else none
  | _, _ => none

/-! ## Names -/

theorem strstr_iff {text needle : CString} : strstr text needle = true ↔ needle <:+: text := by
  simp [strstr, List.infix_iff_prefix_suffix, List.mem_tails, and_comm]

/-- What is put in front of a name, without a dot in it, neither adds two dots nor hides
them. -/
theorem dots_infix_append {front name : CString} (h : 46 ∉ front) :
    cstr ".." <:+: front ++ name ↔ cstr ".." <:+: name := by
  induction front with
  | nil => rfl
  | cons b front ih =>
    obtain ⟨hb, hfront⟩ := not_or.mp (mt List.mem_cons.mpr h)
    have hstart : ¬ cstr ".." <+: b :: (front ++ name) := by
      rw [show cstr ".." = [46, 46] by decide, List.cons_prefix_cons]
      exact fun hboth => hb hboth.1
    rw [List.cons_append, List.infix_cons_iff, or_iff_right hstart, ih hfront]

/-- A relative name is the end of the name, from `sounds/` on. -/
theorem relativeName_eq_some {name relative : CString} (h : relativeName name = some relative) :
    cstr "sounds/" <+: relative ∧ relative <:+ name := by
  have hslashes : name.dropWhile (· == slash) <:+ name := List.dropWhile_suffix _
  simp only [relativeName] at h
  split_ifs at h with hpublished hsounds
  · obtain rfl := Option.some.inj h
    refine ⟨?_, (List.drop_suffix _ _).trans hslashes⟩
    obtain ⟨rest, hrest⟩ := List.isPrefixOf_iff_prefix.mp hpublished
    have hsplit : soundsStart = cstr "published/" ++ cstr "sounds/" := by decide
    rw [← hrest, hsplit, List.append_assoc, List.drop_left]
    exact List.prefix_append _ _
  · obtain rfl := Option.some.inj h
    exact ⟨List.isPrefixOf_iff_prefix.mp hsounds, hslashes⟩

/-- The ways in which FMOD spells the name `relative`. -/
def spelling (slashes : Nat) (published : Bool) (relative : CString) : CString :=
  List.replicate slashes slash ++ (if published then cstr "published/" else []) ++ relative

theorem relativeName_spelling {relative : CString} (h : cstr "sounds/" <+: relative)
    (slashes : Nat) (published : Bool) :
    relativeName (spelling slashes published relative) = some relative := by
  obtain ⟨rest, rfl⟩ := h
  have hslashes : ∀ tail : CString, tail.head? ≠ some slash →
      (List.replicate slashes slash ++ tail).dropWhile (· == slash) = tail := by
    intro tail htail
    rw [List.dropWhile_append_of_pos (by simp)]
    cases tail with
    | nil => rfl
    | cons b tail =>
      rw [List.dropWhile_cons_of_neg]
      simpa using htail
  have hsounds : cstr "sounds/" = [115, 111, 117, 110, 100, 115, 47] := by decide
  have hpublished :
      cstr "published/" = [112, 117, 98, 108, 105, 115, 104, 101, 100, 47] := by decide
  have hstart : soundsStart = cstr "published/" ++ cstr "sounds/" := by decide
  cases published with
  | true =>
    rw [relativeName, spelling, List.append_assoc, hslashes _ (by simp [hpublished, slash])]
    simp only [if_true, ← List.append_assoc, ← hstart]
    rw [if_pos (List.isPrefixOf_iff_prefix.mpr (List.prefix_append _ _)), hstart,
      List.append_assoc, List.drop_left]
  | false =>
    rw [relativeName, spelling, List.append_assoc, hslashes _ (by simp [hsounds, slash])]
    simp [hstart, hsounds, hpublished, List.isPrefixOf]

/-- The slashes and the folder in front have no dots. -/
theorem dots_infix_spelling (slashes : Nat) (published : Bool) (relative : CString) :
    cstr ".." <:+: spelling slashes published relative ↔ cstr ".." <:+: relative := by
  refine dots_infix_append fun hmem => ?_
  rcases List.mem_append.mp hmem with hmem | hmem
  · exact absurd (List.eq_of_mem_replicate hmem) (by decide)
  · cases published with
    | true => exact absurd hmem (by decide)
    | false => exact List.not_mem_nil hmem

/-! ## Paths -/

theorem audioPath_eq_some {root name : CString} {size : Nat} {path : List UInt8}
    (h : nfsmwFmodAudioPath (some root) (some name) size = some path) :
    ∃ relative, relativeName name = some relative ∧ ¬ cstr ".." <:+: name ∧
      path = root ++ cstr "/published/" ++ relative ++ [0] ∧ path.length ≤ size := by
  simp only [nfsmwFmodAudioPath] at h
  split_ifs at h with hrefused
  obtain ⟨relative, hrelative, hpath⟩ := Option.bind_eq_some_iff.mp h
  have hdots : ¬ cstr ".." <:+: name := fun hdots => hrefused (.inr (strstr_iff.mpr hdots))
  split_ifs at hpath with hfits
  obtain ⟨hwhole, hlength⟩ := snprintf_fits hfits
  obtain rfl := Option.some.inj hpath
  refine ⟨relative, hrelative, hdots, hwhole, ?_⟩
  rw [hwhole, List.length_append, List.length_singleton]
  exact hlength

/-- The parts of a path that goes on below the published folder. -/
theorem pathParts_published (root relative : CString) :
    pathParts (root ++ cstr "/published/" ++ relative) =
      pathParts root ++ published :: pathParts relative := by
  have hfolder : cstr "/published/" = slash :: (published ++ [slash]) := by decide
  have hkeep : published ≠ [] ∧ published ≠ cstr "." := by decide
  unfold pathParts
  rw [hfolder, List.append_assoc, List.cons_append, List.splitOn_append_cons_self,
    List.append_assoc, List.singleton_append,
    List.splitOn_append_cons_self_of_not_mem (by decide), List.filter_append,
    List.filter_cons_of_pos (by simpa using hkeep)]

theorem pathParts_sounds_name (rest : CString) :
    pathParts (cstr "sounds/" ++ rest) = cstr "sounds" :: pathParts rest := by
  have hfolder : cstr "sounds/" = cstr "sounds" ++ [slash] := by decide
  have hkeep : cstr "sounds" ≠ [] ∧ cstr "sounds" ≠ cstr "." := by decide
  unfold pathParts
  rw [hfolder, List.append_assoc, List.singleton_append,
    List.splitOn_append_cons_self_of_not_mem (by decide),
    List.filter_cons_of_pos (by simpa using hkeep)]

theorem infix_intercalate {separator part : CString} {parts : List CString}
    (h : part ∈ parts) : part <:+: separator.intercalate parts := by
  induction parts with
  | nil => exact absurd h List.not_mem_nil
  | cons first parts ih =>
    cases parts with
    | nil =>
      obtain rfl := List.mem_singleton.mp h
      rw [List.intercalate_singleton]
    | cons second parts =>
      rw [List.intercalate_cons_cons]
      rcases List.mem_cons.mp h with rfl | hrest
      · exact ⟨[], _, by rw [List.nil_append, List.append_assoc]⟩
      · exact (ih hrest).trans (List.suffix_append _ _).isInfix

/-- A part that is `..` is two dots in a row in the name. -/
theorem dots_infix_of_mem_pathParts {name : CString} (h : parentName ∈ pathParts name) :
    cstr ".." <:+: name := by
  have hsplit : parentName ∈ name.splitOn slash := (List.mem_filter.mp h).1
  have hjoin : [slash].intercalate (name.splitOn slash) = name := List.intercalate_splitOn slash
  exact hjoin ▸ infix_intercalate hsplit

/-- A path that is handed out is the whole path of a name below `sounds`, has no two dots
behind the root, and so stays below the folder of the sounds. Every spelling of a name is
answered alike. -/
theorem audioPath_confined (root : CString) :
    (∀ name size path, nfsmwFmodAudioPath (some root) (some name) size = some path →
      ∃ relative, relativeName name = some relative ∧
        path = root ++ cstr "/published/" ++ relative ++ [0] ∧ path.length ≤ size ∧
        cstr "sounds/" <+: relative ∧ ¬ cstr ".." <:+: relative ∧
        ∃ rest, pathParts (root ++ cstr "/published/" ++ relative) =
            pathParts root ++ soundsParts ++ rest ∧
          ∀ base, let sounds := lexical base (pathParts root ++ soundsParts)
            StaysBelow sounds sounds rest) ∧
    ∀ relative, cstr "sounds/" <+: relative → ∀ slashes published size,
      nfsmwFmodAudioPath (some root) (some (spelling slashes published relative)) size =
        nfsmwFmodAudioPath (some root) (some relative) size := by
  constructor
  · intro name size path h
    obtain ⟨relative, hrelative, hdots, hpath, hsize⟩ := audioPath_eq_some h
    obtain ⟨hsounds, hsuffix⟩ := relativeName_eq_some hrelative
    have hclean : ¬ cstr ".." <:+: relative := fun hoccurs => hdots (hoccurs.trans hsuffix.isInfix)
    refine ⟨relative, hrelative, hpath, hsize, hsounds, hclean, ?_⟩
    obtain ⟨tail, rfl⟩ := hsounds
    refine ⟨pathParts tail, ?_, fun base => staysBelow_of_notMem (fun hmem => hclean ?_) _⟩
    · rw [pathParts_published, pathParts_sounds_name, List.append_assoc]
      rfl
    · exact (dots_infix_of_mem_pathParts hmem).trans (List.suffix_append _ _).isInfix
  · intro relative hsounds slashes published size
    have hplain : relativeName relative = some relative :=
      relativeName_spelling hsounds 0 false
    have hdots : strstr (spelling slashes published relative) (cstr "..") =
        strstr relative (cstr "..") := by
      rw [Bool.eq_iff_iff, strstr_iff, strstr_iff, dots_infix_spelling]
    simp only [nfsmwFmodAudioPath, relativeName_spelling hsounds, hplain, hdots]

/-- The request of the game for its loading music. -/
theorem audioPath_confined_loading :
    ∃ relative, relativeName (cstr "//published/sounds/music/loading_01.mp3") = some relative ∧
      cstr "/audio/published/sounds/music/loading_01.mp3" ++ [0] =
        cstr "/audio" ++ cstr "/published/" ++ relative ++ [0] ∧ cstr "sounds/" <+: relative := by
  obtain ⟨relative, hrelative, hpath, -, hsounds, -⟩ := (audioPath_confined (cstr "/audio")).1
    (cstr "//published/sounds/music/loading_01.mp3") 4096
    (cstr "/audio/published/sounds/music/loading_01.mp3" ++ [0]) (by decide +kernel)
  exact ⟨relative, hrelative, hpath, hsounds⟩

end NfsmwRuntime.Fmod
