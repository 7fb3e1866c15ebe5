import Mathlib.Data.List.Infix
import Mathlib.Tactic.SplitIfs
import NfsmwRuntime.Library.Bytes

/-!
# A file system

A file system is a list of entries, each a path from the root with a file or a directory. The
root itself is always a directory. Names are looked up in directories only, and `..` leads to
the parent of a directory.

Each operation says what it does to the node at every path.
-/

namespace NfsmwRuntime.Library

/-- The names from the root on. -/
abbrev Path := List CString

inductive Node
  | file (content : List UInt8)
  | directory
  deriving DecidableEq, Repr

structure FileSystem where
  entries : List (Path × Node)
  deriving DecidableEq, Repr

def parentName : CString := cstr ".."

/-! ### Paths without a file system -/

/-- Where the names lead from a directory if `..` takes back the name before it. -/
def lexical (base : Path) (names : List CString) : Path :=
  names.foldl (fun p name => if name = parentName then p.dropLast else p ++ [name]) base

/-- Following the names one by one never leads out of a directory. -/
def StaysBelow (top base : Path) (names : List CString) : Prop :=
  ∀ taken, taken <+: names → top <+: lexical base taken

theorem lexical_of_notMem {names : List CString} (h : parentName ∉ names) (base : Path) :
    lexical base names = base ++ names := by
  induction names generalizing base with
  | nil => exact (List.append_nil base).symm
  | cons name names ih =>
    obtain ⟨hname, hnames⟩ := not_or.mp (mt List.mem_cons.mpr h)
    have hstep : lexical base (name :: names) = lexical (base ++ [name]) names := by
      simp [lexical, Ne.symm hname]
    rw [hstep, ih hnames, List.append_assoc, List.singleton_append]

/-- Names without `..` lead nowhere but down. -/
theorem staysBelow_of_notMem {names : List CString} (h : parentName ∉ names) (base : Path) :
    StaysBelow base base names := by
  intro taken htaken
  rw [lexical_of_notMem fun hmem => h (htaken.mem hmem)]
  exact List.prefix_append base taken

namespace FileSystem

section Definitions

variable (fs : FileSystem)

def node (p : Path) : Option Node := (fs.entries.find? fun e => e.1 = p).map Prod.snd

def IsDirectory (p : Path) : Prop := p = [] ∨ fs.node p = some .directory

instance (p : Path) : Decidable (fs.IsDirectory p) := inferInstanceAs (Decidable (_ ∨ _))

def isFile (p : Path) : Bool :=
  match fs.node p with
  | some (.file _) => true
  | _ => false

/-- Nothing is below the path. -/
def Bare (p : Path) : Prop := ∀ e ∈ fs.entries, p <+: e.1 → e.1 = p

instance (p : Path) : Decidable (fs.Bare p) := inferInstanceAs (Decidable (∀ _ ∈ _, _))

def erase (p : Path) : FileSystem := ⟨fs.entries.filter fun e => e.1 ≠ p⟩

def put (p : Path) (n : Node) : FileSystem := ⟨(p, n) :: (fs.erase p).entries⟩

/-- All that is at or below `source` is at or below `target` instead. -/
def move (source target : Path) : FileSystem :=
  ⟨(fs.entries.filter fun e => ¬ target <+: e.1).map fun e =>
    if source <+: e.1 then (target ++ e.1.drop source.length, e.2) else e⟩

/-! ### System calls -/

/-- Where some names lead from a directory. The last one need not exist. -/
def resolve (base : Path) : List CString → Option Path
  | [] => some base
  | name :: names =>
    if fs.IsDirectory base then
      resolve (if name = parentName then base.dropLast else base ++ [name]) names
    else none

/-- `mkdir`, where it is no error that the directory exists. -/
def mkdir (base : Path) (names : List CString) : Option FileSystem :=
  (fs.resolve base names).bind fun p =>
    if fs.IsDirectory p then some fs
    else if fs.node p = none then some (fs.put p .directory)
    else none

/-- Open a file to write it anew. -/
def create (base : Path) (names : List CString) : Option (FileSystem × Path) :=
  (fs.resolve base names).bind fun p =>
    if fs.IsDirectory p then none else some (fs.put p (.file []), p)

/-- Write on in an open file. -/
def append (p : Path) (bytes : List UInt8) : FileSystem :=
  match fs.node p with
  | some (.file content) => fs.put p (.file (content ++ bytes))
  | _ => fs

/-- `unlink` or `rmdir`. -/
def remove (p : Path) : Option FileSystem :=
  match fs.node p with
  | none => none
  | some (.file _) => some (fs.erase p)
  | some .directory => if fs.Bare p then some (fs.erase p) else none

/-- A file replaces a file, and a directory an empty directory. -/
def Replaces (source target : Path) : Prop :=
  match fs.node source, fs.node target with
  | none, _ => False
  | some _, none => True
  | some (.file _), some (.file _) => True
  | some .directory, some .directory => fs.Bare target
  | some _, some _ => False

instance (source target : Path) : Decidable (fs.Replaces source target) := by
  unfold Replaces
  split <;> infer_instance

def rename (source target : Path) : Option FileSystem :=
  if fs.IsDirectory target.dropLast ∧ fs.Replaces source target then
    some (fs.move source target)
  else none

end Definitions

variable {fs fs' : FileSystem} {p q : Path} {n : Node}

/-! ### The node at a path -/

theorem exists_entry (h : fs.node p ≠ none) : ∃ e ∈ fs.entries, e.1 = p := by
  unfold node at h
  cases hfind : fs.entries.find? fun e => e.1 = p with
  | none => exact absurd (by rw [hfind]; rfl) h
  | some e => exact ⟨e, List.mem_of_find?_eq_some hfind, by simpa using List.find?_some hfind⟩

theorem node_filter (keep : Path → Bool) (p : Path) :
    (FileSystem.mk (fs.entries.filter fun e => keep e.1)).node p =
      if keep p then fs.node p else none := by
  unfold node
  rw [List.find?_filter]
  by_cases hkeep : keep p
  · have hsame : ∀ e : Path × Node,
        decide (keep e.1 = true ∧ decide (e.1 = p) = true) = decide (e.1 = p) := by
      intro e
      by_cases he : e.1 = p <;> simp [he, hkeep]
    simp only [hsame, hkeep, if_true]
  · have hnone : ∀ e ∈ fs.entries, ¬ decide (keep e.1 = true ∧ decide (e.1 = p) = true) = true := by
      intro e _ h
      obtain ⟨hkept, he⟩ := of_decide_eq_true h
      exact hkeep (of_decide_eq_true he ▸ hkept)
    rw [List.find?_eq_none.mpr hnone, if_neg hkeep]
    rfl

theorem node_erase : (fs.erase p).node q = if q = p then none else fs.node q := by
  have h := @node_filter fs (fun r => r ≠ p) q
  rw [erase, h]
  by_cases hq : q = p <;> simp [hq]

theorem node_put : (fs.put p n).node q = if q = p then some n else fs.node q := by
  by_cases hq : q = p
  · subst hq
    simp [put, node]
  · have herase : (fs.erase p).node q = fs.node q := by rw [node_erase, if_neg hq]
    rw [if_neg hq, ← herase]
    simp [put, node, Ne.symm hq]

theorem eq_of_node_put_ne (h : (fs.put p n).node q ≠ fs.node q) : q = p := by
  by_contra hne
  exact h (by rw [node_put, if_neg hne])

/-- Where an entry is after a move. -/
theorem moved_eq_iff (hst : ¬ p <+: q) (hts : ¬ q <+: p) {r path : Path} :
    (¬ q <+: path ∧ (if p <+: path then q ++ path.drop p.length else path) = r) ↔
      if q <+: r then path = p ++ r.drop q.length else ¬ p <+: r ∧ path = r := by
  by_cases hp : p <+: path
  · obtain ⟨rest, rfl⟩ := hp
    have hq : ¬ q <+: p ++ rest := fun hq =>
      (List.prefix_or_prefix_of_prefix hq (List.prefix_append p rest)).elim hts hst
    rw [if_pos (List.prefix_append p rest), List.drop_left, and_iff_right hq]
    by_cases hr : q <+: r
    · obtain ⟨rest', rfl⟩ := hr
      rw [if_pos (List.prefix_append q rest'), List.drop_left, List.append_cancel_left_eq,
        List.append_cancel_left_eq]
    · rw [if_neg hr]
      exact iff_of_false (fun h => hr ⟨rest, h⟩) fun h => h.1 ⟨rest, h.2⟩
  · rw [if_neg hp]
    by_cases hr : q <+: r
    · rw [if_pos hr]
      exact iff_of_false (fun h => h.1 (h.2 ▸ hr)) fun h => hp ⟨_, h.symm⟩
    · rw [if_neg hr]
      exact ⟨fun h => ⟨h.2 ▸ hp, h.2⟩, fun h => ⟨h.2 ▸ hr, h.2⟩⟩

/-- A path below the target was below the source, and nothing is left there. -/
theorem node_move (hst : ¬ p <+: q) (hts : ¬ q <+: p) {r : Path} :
    (fs.move p q).node r =
      if q <+: r then fs.node (p ++ r.drop q.length) else if p <+: r then none else fs.node r := by
  have hfind : (fs.move p q).node r = (fs.entries.find? fun e => decide
      (if q <+: r then e.1 = p ++ r.drop q.length else ¬ p <+: r ∧ e.1 = r)).map Prod.snd := by
    unfold node move
    rw [List.find?_map, List.find?_filter, Option.map_map]
    have hsnd : Prod.snd ∘ (fun e : Path × Node =>
        if p <+: e.1 then (q ++ e.1.drop p.length, e.2) else e) = Prod.snd := by
      funext e
      rw [Function.comp_apply]
      split <;> rfl
    have hfst : ∀ e : Path × Node,
        (if p <+: e.1 then (q ++ e.1.drop p.length, e.2) else e).1 =
          if p <+: e.1 then q ++ e.1.drop p.length else e.1 := by
      intro e
      split <;> rfl
    rw [hsnd]
    simp only [Function.comp_apply, hfst, decide_eq_true_eq, moved_eq_iff hst hts]
  rw [hfind]
  unfold node
  by_cases hq : q <+: r
  · simp only [if_pos hq]
  · by_cases hp : p <+: r <;> simp [hq, hp]

/-! ### Lookups -/

/-- Without `..` the names lead to the path that they spell, through directories. -/
theorem resolve_eq_some {base : Path} {names : List CString} (hnames : parentName ∉ names)
    (h : fs.resolve base names = some p) :
    p = base ++ names ∧ (names ≠ [] → fs.IsDirectory p.dropLast) := by
  induction names generalizing base with
  | nil =>
    cases h
    exact ⟨(List.append_nil _).symm, fun h => absurd rfl h⟩
  | cons name names ih =>
    obtain ⟨hname, hrest⟩ := not_or.mp (mt List.mem_cons.mpr hnames)
    rw [resolve] at h
    split at h
    · rename_i hbase
      rw [if_neg (Ne.symm hname)] at h
      obtain ⟨hp, hparent⟩ := ih hrest h
      refine ⟨by rw [hp, List.append_assoc]; rfl, fun _ => ?_⟩
      cases names with
      | nil => rwa [hp, List.append_nil, List.dropLast_concat]
      | cons next names => exact hparent (List.cons_ne_nil _ _)
    · cases h

/-- Names are followed as they are spelled, there being no links. -/
theorem lexical_of_resolve {base : Path} {names : List CString}
    (h : fs.resolve base names = some p) : p = lexical base names := by
  induction names generalizing base with
  | nil => exact (Option.some.inj h).symm
  | cons name names ih =>
    rw [resolve] at h
    split_ifs at h with hbase hname
    · rw [ih h, hname]
      rfl
    · rw [ih h]
      simp [lexical, hname]

theorem mkdir_eq_some {base : Path} {names : List CString}
    (h : fs.mkdir base names = some fs') : ∃ p, fs.resolve base names = some p ∧
      (fs' = fs ∨ (fs.node p = none ∧ fs' = fs.put p .directory)) := by
  obtain ⟨p, hp, hresult⟩ := Option.bind_eq_some_iff.mp h
  refine ⟨p, hp, ?_⟩
  split_ifs at hresult with hdirectory hnone
  · exact .inl (Option.some.inj hresult).symm
  · exact .inr ⟨hnone, (Option.some.inj hresult).symm⟩

theorem create_eq_some {base : Path} {names : List CString}
    (h : fs.create base names = some (fs', p)) : fs.resolve base names = some p ∧
      ¬ fs.IsDirectory p ∧ fs' = fs.put p (.file []) := by
  obtain ⟨r, hr, hresult⟩ := Option.bind_eq_some_iff.mp h
  split_ifs at hresult with hdirectory
  cases hresult
  exact ⟨hr, hdirectory, rfl⟩

theorem remove_eq_some (h : fs.remove p = some fs') :
    fs' = fs.erase p ∧ (fs.node p = some .directory → fs.Bare p) := by
  unfold remove at h
  split at h
  · cases h
  · rename_i content hfile
    refine ⟨(Option.some.inj h).symm, fun hdirectory => ?_⟩
    rw [hfile] at hdirectory
    cases hdirectory
  · split_ifs at h with hbare
    exact ⟨(Option.some.inj h).symm, fun _ => hbare⟩

theorem rename_eq_some (h : fs.rename p q = some fs') : fs' = fs.move p q := by
  unfold rename at h
  split_ifs at h
  exact (Option.some.inj h).symm

/-! ### Files -/

/-- The files at and below the path are the same. -/
def SameFiles (root : Path) (fs fs' : FileSystem) : Prop :=
  ∀ rest content, fs'.node (root ++ rest) = some (.file content) ↔
    fs.node (root ++ rest) = some (.file content)

section SameFiles

variable {root : Path}

theorem SameFiles.refl (root : Path) (fs : FileSystem) : SameFiles root fs fs := fun _ _ => Iff.rfl

theorem sameFiles_put (hp : ¬ root <+: p) : SameFiles root fs (fs.put p n) := by
  intro rest content
  rw [node_put, if_neg]
  rintro rfl
  exact hp (List.prefix_append root rest)

theorem sameFiles_remove (hp : ¬ root <+: p) (h : fs.remove p = some fs') :
    SameFiles root fs fs' := by
  obtain ⟨rfl, -⟩ := remove_eq_some h
  intro rest content
  rw [node_erase, if_neg]
  rintro rfl
  exact hp (List.prefix_append root rest)

theorem sameFiles_append {bytes : List UInt8} (hp : ¬ root <+: p) :
    SameFiles root fs (fs.append p bytes) := by
  unfold append
  split
  · exact sameFiles_put hp
  · exact .refl root fs

/-- A new directory is not a file, and is not where one was. -/
theorem sameFiles_mkdir {base : Path} {names : List CString}
    (h : fs.mkdir base names = some fs') : SameFiles root fs fs' := by
  obtain ⟨p, -, rfl | ⟨hnone, rfl⟩⟩ := mkdir_eq_some h
  · exact .refl root fs'
  · intro rest content
    rw [node_put]
    split_ifs with hp
    · rw [hp, hnone]
      exact iff_of_false nofun nofun
    · rfl

end SameFiles

end FileSystem

end NfsmwRuntime.Library
