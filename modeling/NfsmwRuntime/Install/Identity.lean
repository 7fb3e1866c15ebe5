import Mathlib.Data.List.Basic
import NfsmwRuntime.Library.Result
import NfsmwRuntime.Library.Bytes
import NfsmwRuntime.Library.Checksums

/-!
# The identity of what is installed

The extractor compares files and whole folders by SHA-256. A folder is walked, and its files go
into one stream: the name, a NUL, the size in eight bytes and the digest of the content. No
other folder has the same stream, as long as the hash tells the contents apart.
-/

namespace NfsmwRuntime.Install

open Library

/-- What there is at a path: a regular file, or a folder with its files in the order in which
they are walked, each with its path in the folder. -/
inductive Content
  | file (bytes : List UInt8)
  | folder (files : List (CString × List UInt8))
  deriving DecidableEq, Repr

inductive Identity
  | file (digest : List UInt8)
  | tree (digest : List UInt8)
  deriving DecidableEq, Repr

/-- An error that the extractor raises: of the system, or with a message of its own. -/
inductive Failure
  | system
  | recipe (message : CString)
  | source (message : CString)
  | plan (message : CString)
  | validation (message : CString)
  | eapx (message : CString)
  deriving DecidableEq, Repr

def le64 (v : UInt64) : List UInt8 := le32 v.toUInt32 ++ le32 (v >>> 32).toUInt32

@[simp] theorem length_le64 (v : UInt64) : (le64 v).length = 8 := rfl

section Definitions

variable (sha256 : List UInt8 → List UInt8)

/-- What one file adds to the stream of its folder. -/
def fileRecord (f : CString × List UInt8) : List UInt8 :=
  f.1 ++ 0 :: (le64 f.2.length.toUInt64 ++ sha256 f.2)

/-- The digest of a folder. A file that was being written when the extractor was stopped has no
place in one. -/
def treeStats (root : CString) (files : List (CString × List UInt8)) :
    Except Failure (List UInt8) :=
  match files.find? fun f => (cstr ".part").isSuffixOf f.1 with
  | some f => .error (.validation (cstr "leftover partial file inside " ++ root ++ cstr ": " ++
      (f.1.splitOn 47).getLastD []))
  | none => .ok (sha256 (files.flatMap (fileRecord sha256)))

/-- Content identity of a file or a whole tree. -/
def digestOf (path : CString) : Option Content → Except Failure (Option Identity)
  | none => .ok none
  | some (.file bytes) => .ok (some (.file (sha256 bytes)))
  | some (.folder files) => (treeStats sha256 path files).map fun digest => some (.tree digest)

/-- All that is hashed for the identity. -/
def hashed : Content → List (List UInt8)
  | .file bytes => [bytes]
  | .folder files => files.flatMap (fileRecord sha256) :: files.map Prod.snd

end Definitions

/-- Names of files have no NUL. -/
def Content.Named : Content → Prop
  | .file _ => True
  | .folder files => ∀ f ∈ files, (0 : UInt8) ∉ f.1

instance (c : Content) : Decidable c.Named := by
  cases c with
  | file bytes => exact .isTrue trivial
  | folder files => exact inferInstanceAs (Decidable (∀ f ∈ files, (0 : UInt8) ∉ f.1))

/-- The hash is as long as it should be, and tells two of these apart. -/
structure TellsApart (sha256 : List UInt8 → List UInt8) (xs ys : List (List UInt8)) : Prop where
  length : ∀ x ∈ xs ++ ys, (sha256 x).length = 32
  inj : ∀ x ∈ xs, ∀ y ∈ ys, sha256 x = sha256 y → x = y

section Identity

variable {sha256 : List UInt8 → List UInt8}

theorem TellsApart.mono {xs ys xs' ys' : List (List UInt8)} (h : TellsApart sha256 xs ys)
    (hx : xs' ⊆ xs) (hy : ys' ⊆ ys) : TellsApart sha256 xs' ys' where
  length x hmem := h.length x <| (List.mem_append.mp hmem).elim
    (fun hmem => List.mem_append_left _ (hx hmem)) fun hmem => List.mem_append_right _ (hy hmem)
  inj x hmem y hmem' := h.inj x (hx hmem) y (hy hmem')

/-- A name ends at its NUL. -/
theorem name_append_inj {a b s t : List UInt8} (ha : 0 ∉ a) (hb : 0 ∉ b)
    (h : a ++ 0 :: s = b ++ 0 :: t) : a = b ∧ s = t := by
  have hname : ∀ l rest : List UInt8, 0 ∉ l → cstring (l ++ 0 :: rest) = l := by
    intro l rest hl
    have hall : ∀ x ∈ l, decide (x ≠ 0) = true :=
      fun x hx => decide_eq_true fun heq => hl (heq ▸ hx)
    rw [cstring, List.takeWhile_append_of_pos hall, List.takeWhile_cons_of_neg (by simp),
      List.append_nil]
  have hab : a = b := by rw [← hname a s ha, h, hname b t hb]
  subst hab
  exact ⟨rfl, List.tail_eq_of_cons_eq (List.append_cancel_left h)⟩

/-- A record ends where its digest does. -/
theorem fileRecord_append_inj {f g : CString × List UInt8} {s t : List UInt8}
    (hf : (0 : UInt8) ∉ f.1) (hg : (0 : UInt8) ∉ g.1)
    (hlength : (sha256 f.2).length = (sha256 g.2).length)
    (h : fileRecord sha256 f ++ s = fileRecord sha256 g ++ t) :
    f.1 = g.1 ∧ sha256 f.2 = sha256 g.2 ∧ s = t := by
  simp only [fileRecord, List.append_assoc, List.cons_append] at h
  obtain ⟨hname, hrest⟩ := name_append_inj hf hg h
  obtain ⟨-, hrest⟩ := List.append_inj hrest rfl
  obtain ⟨hdigest, hrest⟩ := List.append_inj hrest hlength
  exact ⟨hname, hdigest, hrest⟩

theorem fileRecord_ne_nil (f : CString × List UInt8) : fileRecord sha256 f ≠ [] := by
  simp [fileRecord]

/-- The stream can be read back file by file. -/
theorem files_eq_of_stream {fs gs : List (CString × List UInt8)}
    (hfs : ∀ f ∈ fs, (0 : UInt8) ∉ f.1) (hgs : ∀ g ∈ gs, (0 : UInt8) ∉ g.1)
    (happart : TellsApart sha256 (fs.map Prod.snd) (gs.map Prod.snd))
    (h : fs.flatMap (fileRecord sha256) = gs.flatMap (fileRecord sha256)) : fs = gs := by
  induction fs generalizing gs with
  | nil =>
    cases gs with
    | nil => rfl
    | cons g gs =>
      rw [List.flatMap_nil, List.flatMap_cons] at h
      exact absurd (List.append_eq_nil_iff.mp h.symm).1 (fileRecord_ne_nil g)
  | cons f fs ih =>
    cases gs with
    | nil =>
      rw [List.flatMap_nil, List.flatMap_cons] at h
      exact absurd (List.append_eq_nil_iff.mp h).1 (fileRecord_ne_nil f)
    | cons g gs =>
      obtain ⟨hf, hfs⟩ := List.forall_mem_cons.mp hfs
      obtain ⟨hg, hgs⟩ := List.forall_mem_cons.mp hgs
      have hlength : (sha256 f.2).length = (sha256 g.2).length :=
        (happart.length f.2 (by simp)).trans (happart.length g.2 (by simp)).symm
      rw [List.flatMap_cons, List.flatMap_cons] at h
      obtain ⟨hname, hdigest, hrest⟩ := fileRecord_append_inj hf hg hlength h
      have hcontent : f.2 = g.2 := happart.inj f.2 (by simp) g.2 (by simp) hdigest
      rw [Prod.ext hname hcontent, ih hfs hgs (happart.mono (List.subset_cons_self _ _)
        (List.subset_cons_self _ _)) hrest]

theorem digestOf_folder {path : CString} {files : List (CString × List UInt8)}
    {identity : Option Identity}
    (h : digestOf sha256 path (some (.folder files)) = .ok identity) :
    identity = some (.tree (sha256 (files.flatMap (fileRecord sha256)))) := by
  rw [digestOf, treeStats] at h
  split at h
  · cases h
  · exact (Except.ok.inj h).symm

/-- Two contents with an identity have the same one exactly if they are the same, whatever the
paths, if the hash tells apart what it is applied to. -/
theorem digestOf_eq_iff {c d : Content} {p q : CString} {i j : Option Identity}
    (hc : c.Named) (hd : d.Named) (happart : TellsApart sha256 (hashed sha256 c) (hashed sha256 d))
    (hi : digestOf sha256 p (some c) = .ok i) (hj : digestOf sha256 q (some d) = .ok j) :
    i = j ↔ c = d := by
  cases c with
  | file bytes =>
    obtain rfl := Except.ok.inj hi
    cases d with
    | file bytes' =>
      obtain rfl := Except.ok.inj hj
      have hinj := happart.inj bytes (by simp [hashed]) bytes' (by simp [hashed])
      simp only [Option.some.injEq, Identity.file.injEq, Content.file.injEq]
      exact ⟨hinj, fun h => h ▸ rfl⟩
    | folder files' =>
      rw [digestOf_folder hj]
      simp
  | folder files =>
    rw [digestOf_folder hi]
    cases d with
    | file bytes' =>
      obtain rfl := Except.ok.inj hj
      simp
    | folder files' =>
      rw [digestOf_folder hj]
      simp only [Option.some.injEq, Identity.tree.injEq, Content.folder.injEq]
      refine ⟨fun h => ?_, fun h => h ▸ rfl⟩
      have hstream := happart.inj _ List.mem_cons_self _ List.mem_cons_self h
      exact files_eq_of_stream hc hd (happart.mono (List.subset_cons_self _ _)
        (List.subset_cons_self _ _)) hstream

end Identity

/-- A file that is renamed in its folder makes it another folder. -/
theorem digestOf_eq_iff_sample :
    digestOf sha256 (cstr "lib") (some (.folder [(cstr "a", [1])])) ≠
      digestOf sha256 (cstr "lib") (some (.folder [(cstr "b", [1])])) := by
  intro heq
  have hsame := (@digestOf_eq_iff sha256 (.folder [(cstr "a", [1])]) (.folder [(cstr "b", [1])])
    (cstr "lib") (cstr "lib") _ _ (by decide) (by decide)
    ⟨fun x _ => length_sha256 x, by decide +kernel⟩ rfl (heq ▸ rfl)).mp rfl
  exact absurd hsame (by decide)

end NfsmwRuntime.Install
