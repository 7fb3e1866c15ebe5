import Mathlib.Data.List.Forall2
import NfsmwRuntime.Install.Transaction

/-!
# Undoing a transaction

While a transaction goes on, each of its commit roots is in one of three states: not touched
yet, with the original in the backup and nothing in its place, or exchanged. In each of them the
original and the payload are both there. The rollback finds out by their identities which one it
is, and leads back to the first, wherever it is interrupted and however often it is begun anew.
-/

namespace NfsmwRuntime.Install

open Library Process

/-! ## What an operation does to a commit root -/

/-- What the three areas have at one commit root. -/
structure Slot where
  live : Option Content
  staged : Option Content
  saved : Option Content

def Slot.get (s : Slot) : Area → Option Content
  | .live => s.live
  | .staged => s.staged
  | .saved => s.saved

def Slot.set (s : Slot) (a : Area) (c : Option Content) : Slot :=
  match a with
  | .live => { s with live := c }
  | .staged => { s with staged := c }
  | .saved => { s with saved := c }

def World.slot (w : World) (path : CString) : Slot :=
  ⟨w.content .live path, w.content .staged path, w.content .saved path⟩

section Slots

variable {w : World} {a : Area} {path q : CString} {c : Option Content}

theorem World.content_set (b : Area) :
    (w.set a path c).content b q = if (b, q) = (a, path) then c else w.content b q := by
  simp only [World.content, World.set, Function.update_apply]

@[simp] theorem World.slot_set_self : (w.set a path c).slot path = (w.slot path).set a c := by
  cases a <;> simp [World.slot, World.content_set, Slot.set]

theorem World.slot_set_of_ne (h : q ≠ path) : (w.set a path c).slot q = w.slot q := by
  simp [World.slot, World.content_set, h]

@[simp] theorem World.get_slot : (w.slot path).get a = w.content a path := by cases a <;> rfl

end Slots

/-! ## The states of a transaction -/

/-- Two versions of some commit roots, one of which takes the place of the other. -/
structure Exchange where
  transactionId : CString
  paths : List CString
  old : CString → Option Content
  new : CString → Option Content
  marker : Option Marker

section States

variable (sha256 : List UInt8 → List UInt8)

def Digestible (path : CString) (c : Option Content) : Prop :=
  ∃ i, digestOf sha256 path c = .ok i

/-- The versions can be told apart, and the paths can be followed. -/
structure Exchange.Sound (x : Exchange) : Prop where
  nodup : x.paths.Nodup
  valid : ∀ p ∈ x.paths, ∀ label, validateRelativePath label p = .ok ()
  staged : ∀ p ∈ x.paths, x.new p ≠ none
  fresh : x.marker.map Marker.transactionId ≠ some x.transactionId
  differ : ∀ p ∈ x.paths, digestOf sha256 p (x.new p) ≠ digestOf sha256 p (x.old p)

/-- The record of a path has the identities of both versions. -/
structure Exchange.Describes (x : Exchange) (p : CString) (r : Record) : Prop where
  path : r.path = p
  new : digestOf sha256 p (x.new p) = .ok r.digestNew
  old : digestOf sha256 p (x.old p) = .ok r.digestOld

structure Exchange.Matches (x : Exchange) (j : Journal) : Prop where
  format : j.format = FORMAT_VERSION
  transactionId : j.transactionId = x.transactionId
  paths : List.Forall₂ (x.Describes sha256) x.paths j.paths

end States

/-- Nothing has happened, or all has been undone. -/
def Slot.Pending (o n : Option Content) (s : Slot) : Prop := s.live = o ∧ s.staged = n

def Slot.BackedUp (o n : Option Content) (s : Slot) : Prop :=
  s.live = none ∧ s.staged = n ∧ s.saved = o ∧ o ≠ none

def Slot.Installed (o n : Option Content) (s : Slot) : Prop :=
  s.live = n ∧ s.staged = none ∧ (o = none ∨ s.saved = o)

/-- Both versions are there, and it can be told where. -/
def Slot.Recoverable (o n : Option Content) (s : Slot) : Prop :=
  s.Pending o n ∨ s.BackedUp o n ∨ s.Installed o n

section Held

variable (sha256 : List UInt8 → List UInt8) (x : Exchange)

/-- The transaction goes on: each commit root is in one of its states, all else is as it was,
and the journal on the disk and in memory is about this. -/
structure Held (S : CString → Slot → Prop) (w : World) : Prop where
  slots : ∀ p ∈ x.paths, S p (w.slot p)
  others : ∀ p ∉ x.paths, w.content .live p = x.old p
  backup : ∀ p, Digestible sha256 p (w.content .saved p)
  marker : w.marker = x.marker
  journal : ∃ j, w.journal = some (.readable j) ∧ x.Matches sha256 j
  data : ∃ j, w.data = some j ∧ x.Matches sha256 j

def Undoable : World → Prop := Held sha256 x fun p => Slot.Recoverable (x.old p) (x.new p)

/-- Every state that is asked of a commit root is one from which it can be undone. -/
def Safe (S : CString → Slot → Prop) : Prop :=
  ∀ p ∈ x.paths, ∀ s, S p s → s.Recoverable (x.old p) (x.new p)

end Held

section Rules

variable {sha256 : List UInt8 → List UInt8} {x : Exchange} {S T : CString → Slot → Prop}
  {w w' : World} {p : CString} {Φ Ψ : Slot → Prop} {A : World → Fate Cut → Prop}

theorem Held.mono (h : Held sha256 x S w) (hST : ∀ p ∈ x.paths, ∀ s, S p s → T p s) :
    Held sha256 x T w :=
  { h with slots := fun p hp => hST p hp _ (h.slots p hp) }

theorem Held.undoable (h : Held sha256 x S w) (hS : Safe x S) : Undoable sha256 x w := h.mono hS

/-- Look at one commit root. -/
theorem Held.update (h : Held sha256 x S w) (hΦ : p ∈ x.paths → Φ (w.slot p)) :
    Held sha256 x (Function.update S p Φ) w := by
  refine { h with slots := fun q hq => ?_ }
  by_cases heq : q = p
  · subst heq
    simpa using hΦ hq
  · simpa [heq] using h.slots q hq

theorem Safe.update (hS : Safe x S) (hΦ : ∀ s, Φ s → s.Recoverable (x.old p) (x.new p)) :
    Safe x (Function.update S p Φ) := by
  intro q hq s hs
  by_cases heq : q = p
  · subst heq
    exact hΦ s (by simpa using hs)
  · exact hS q hq s (by simpa [heq] using hs)

theorem Held.shift (h : Held sha256 x (Function.update S p Φ) w)
    (hΨ : Φ (w.slot p) → Ψ (w.slot p)) : Held sha256 x (Function.update S p Ψ) w := by
  refine { h with slots := fun q hq => ?_ }
  have hslot := h.slots q hq
  by_cases heq : q = p
  · subst heq
    rw [Function.update_self] at hslot ⊢
    exact hΨ hslot
  · rwa [Function.update_of_ne heq] at hslot ⊢

theorem Held.slot (h : Held sha256 x (Function.update S p Φ) w) (hp : p ∈ x.paths) :
    Φ (w.slot p) := by
  simpa using h.slots p hp

/-- Change one area at one commit root of the transaction. -/
theorem Held.set {a : Area} {c : Option Content} (h : Held sha256 x (Function.update S p Φ) w)
    (hp : p ∈ x.paths) (hΨ : Ψ ((w.slot p).set a c))
    (hbackup : a = .saved → Digestible sha256 p c) :
    Held sha256 x (Function.update S p Ψ) (w.set a p c) where
  slots q hq := by
    by_cases heq : q = p
    · subst heq
      simpa using hΨ
    · have hslot := h.slots q hq
      rw [World.slot_set_of_ne heq]
      simpa [heq] using hslot
  others q hq := by
    have hne : q ≠ p := fun heq => hq (heq ▸ hp)
    rw [World.content_set, if_neg (by simp [hne])]
    exact h.others q hq
  backup q := by
    rw [World.content_set]
    split_ifs with heq
    · obtain ⟨ha, rfl⟩ := Prod.mk.inj heq
      exact hbackup ha.symm
    · exact h.backup q
  marker := h.marker
  journal := h.journal
  data := h.data

theorem digestible_none : Digestible sha256 p none := ⟨none, rfl⟩

theorem digestOf_congr {c d : Option Content} {i : Option Identity} (h : c = d)
    (hd : digestOf sha256 p d = .ok i) : digestOf sha256 p c = .ok i := h ▸ hd

theorem digestOf_some_ne_none {c : Content} {i : Option Identity}
    (h : digestOf sha256 p (some c) = .ok i) : i ≠ none := by
  rintro rfl
  cases c with
  | file bytes => cases h
  | folder files => cases digestOf_folder h

theorem Exchange.Matches.describes {j : Journal} (h : x.Matches sha256 j) (hp : p ∈ x.paths) :
    ∃ r ∈ j.paths, x.Describes sha256 p r := exists_of_forall₂ h.paths hp

theorem Held.digestible_old (h : Held sha256 x S w) (hp : p ∈ x.paths) :
    Digestible sha256 p (x.old p) := by
  obtain ⟨j, -, hj⟩ := h.data
  obtain ⟨r, -, hr⟩ := hj.describes hp
  exact ⟨_, hr.old⟩

end Rules

/-! ## Operations during a transaction -/

section Rules

variable {sha256 : List UInt8 → List UInt8} {A : World → Fate Cut → Prop} {P R K : World → Prop}

/-- What an operation that is done as a whole or not at all may do. -/
theorem atomic_keeps {Q : Unit → World → Prop} {f : World → World}
    (hf : ∀ w, P w → Q () (f w)) (hR : ∀ w, P w → Fails A → R w)
    (hK : ∀ w, P w → Kills A → K w) : Triple A P (Process.atomic Failure.system f) Q R K :=
  .atomic hf (fun w cut hcut hw => hR w hw ⟨w, cut, hcut⟩)
    fun w cut hcut hw => hK w hw ⟨w, cut, hcut⟩

/-- The identity that is found, where there is one. -/
theorem digest_finds {a : Area} {p : CString} (hR : ∀ w, P w → Fails A → R w)
    (hK : ∀ w, P w → Kills A → K w)
    (herror : ∀ w e, P w → digestOf sha256 p (w.content a p) = .error e → R w) :
    Triple A P (Job.digest sha256 a p)
      (fun i w => digestOf sha256 p (w.content a p) = .ok i ∧ P w) R K := by
  refine .bind (atomic_keeps (Q := fun _ => P) (fun _ hw => hw) hR hK) fun _ => ?_
  refine .bind (Q := fun c w => c = w.content a p ∧ P w) (.read fun w hw => ⟨rfl, hw⟩) fun c => ?_
  cases hresult : digestOf sha256 p c with
  | ok i => exact .pure fun w hw => ⟨hw.1 ▸ hresult, hw.2⟩
  | error e => exact .raise fun w hw => herror w e hw.2 (hw.1 ▸ hresult)

end Rules

/-- A state from which the transaction can be undone will do where an operation fails, and where
the process is killed. -/
structure Tolerates (sha256 : List UInt8 → List UInt8) (x : Exchange) (A : World → Fate Cut → Prop)
    (R K : World → Prop) : Prop where
  failure : ∀ w, Undoable sha256 x w → Fails A → R w
  kill : ∀ w, Undoable sha256 x w → Kills A → K w

section Operations

variable {sha256 : List UInt8 → List UInt8} {x : Exchange} {S : CString → Slot → Prop}
  {p : CString} {Φ Ψ : Slot → Prop} {A : World → Fate Cut → Prop} {R K : World → Prop}

theorem Tolerates.atomic (ht : Tolerates sha256 x A R K) (hS : Safe x S) {f : World → World}
    {Q : Unit → World → Prop} (hf : ∀ w, Held sha256 x S w → Q () (f w)) :
    Triple A (Held sha256 x S) (Process.atomic Failure.system f) Q R K :=
  atomic_keeps hf (fun w h => ht.failure w (h.undoable hS)) fun w h => ht.kill w (h.undoable hS)

theorem Tolerates.system (ht : Tolerates sha256 x A R K) (hS : Safe x S) :
    Triple A (Held sha256 x S) Job.system (fun _ => Held sha256 x S) R K :=
  ht.atomic hS fun _ h => h

theorem Tolerates.ofExcept {α : Type} {result : Except Failure α} {a : α}
    (h : result = .ok a) : Triple A (Held sha256 x S) (Job.ofExcept result)
      (fun b w => b = a ∧ Held sha256 x S w) R K := by
  subst h
  exact .pure fun _ h => ⟨rfl, h⟩

theorem Tolerates.digest_any (ht : Tolerates sha256 x A R K) (hS : Safe x S) {a : Area}
    (h : ∀ w, Held sha256 x S w → Digestible sha256 p (w.content a p)) :
    Triple A (Held sha256 x S) (Job.digest sha256 a p)
      (fun i w => digestOf sha256 p (w.content a p) = .ok i ∧ Held sha256 x S w) R K := by
  refine digest_finds (fun w hw => ht.failure w (hw.undoable hS))
    (fun w hw => ht.kill w (hw.undoable hS)) fun w e hw he => ?_
  obtain ⟨i, hi⟩ := h w hw
  rw [he] at hi
  cases hi

theorem Tolerates.digest (ht : Tolerates sha256 x A R K) (hS : Safe x S) {a : Area}
    {i : Option Identity} (h : ∀ w, Held sha256 x S w → digestOf sha256 p (w.content a p) = .ok i) :
    Triple A (Held sha256 x S) (Job.digest sha256 a p)
      (fun b w => b = i ∧ Held sha256 x S w) R K :=
  (ht.digest_any hS fun w hw => ⟨i, h w hw⟩).post fun _ w hw =>
    ⟨Except.ok.inj (hw.1.symm.trans (h w hw.2)), hw.2⟩

/-- The journal is written with another state of a record, of which recovery knows nothing. -/
theorem Tolerates.setState (ht : Tolerates sha256 x A R K) (hS : Safe x S) (state : RecordState) :
    Triple A (Held sha256 x S) (Transaction.setState p state) (fun _ => Held sha256 x S) R K := by
  have hmatches : ∀ {j : Journal}, x.Matches sha256 j → x.Matches sha256
      { j with paths := j.paths.map fun r => if r.path = p then { r with state } else r } := by
    intro j hj
    refine ⟨hj.format, hj.transactionId, ?_⟩
    have hrecord : ∀ {q r}, x.Describes sha256 q r →
        x.Describes sha256 q (if r.path = p then { r with state } else r) := by
      intro q r hr
      split_ifs
      · exact ⟨hr.path, hr.new, hr.old⟩
      · exact hr
    exact List.forall₂_map_right_iff.mpr (hj.paths.imp fun _ _ => hrecord)
  refine .bind (Q := fun _ => Held sha256 x S) (.modify fun w h => ?_) fun _ => ?_
  · obtain ⟨j, hj, hmatch⟩ := h.data
    exact { h with data := ⟨_, by rw [hj]; rfl, hmatches hmatch⟩ }
  · refine .bind (ht.atomic hS fun w h => ?_) fun _ => ht.system hS
    obtain ⟨j, hj, hmatch⟩ := h.data
    exact { h with journal := ⟨j, by rw [hj]; rfl, hmatch⟩ }

/-- A rename, where what it would replace makes it fail. -/
theorem Tolerates.rename (ht : Tolerates sha256 x A R K) (hp : p ∈ x.paths)
    (hS : Safe x (Function.update S p Φ)) {a b : Area}
    (hraise : ∀ w, Held sha256 x (Function.update S p Φ) w → w.content b p ≠ none → R w)
    (hmove : ∀ s, Φ s → ∃ c, s.get a = some c ∧ Ψ ((s.set b (some c)).set a none))
    (hbackup : b = .saved → ∀ w, Held sha256 x (Function.update S p Φ) w →
      Digestible sha256 p (w.content a p)) :
    Triple A (Held sha256 x (Function.update S p Φ)) (Job.rename a b p)
      (fun _ => Held sha256 x (Function.update S p Ψ)) R K := by
  refine .bind (Q := fun c w => c = (w.content a p, w.content b p) ∧
    Held sha256 x (Function.update S p Φ) w) (.read fun w h => ⟨rfl, h⟩) fun c => ?_
  have hmoved : ∀ {moved : Content} w, Held sha256 x (Function.update S p Φ) w →
      w.content a p = some moved →
      Held sha256 x (Function.update S p Ψ) ((w.set b p (some moved)).set a p none) := by
    intro moved w hw hcontent
    obtain ⟨c, hc, hΨ⟩ := hmove _ (hw.slot hp)
    rw [World.get_slot, hcontent] at hc
    obtain rfl := Option.some.inj hc
    have hfirst : Held sha256 x (Function.update S p fun s => Ψ (s.set a none))
        (w.set b p (some moved)) :=
      hw.set hp hΨ fun hb => hcontent ▸ hbackup hb w hw
    exact hfirst.set hp (hfirst.slot hp) fun _ => digestible_none
  have hatomic : ∀ {moved : Content} {there : Option Content},
      Triple A (fun w => (some moved, there) = (w.content a p, w.content b p) ∧
        Held sha256 x (Function.update S p Φ) w)
      (Process.atomic Failure.system fun w => (w.set b p (some moved)).set a p none)
      (fun _ => Held sha256 x (Function.update S p Ψ)) R K := fun {moved there} =>
    atomic_keeps (fun w hw => hmoved w hw.2 (Prod.mk.inj hw.1).1.symm)
      (fun w hw => ht.failure w (hw.2.undoable hS)) fun w hw => ht.kill w (hw.2.undoable hS)
  obtain ⟨source, there⟩ := c
  cases source with
  | none =>
    refine .raise fun w hw => ?_
    obtain ⟨c, hc, -⟩ := hmove _ (hw.2.slot hp)
    rw [World.get_slot, ← (Prod.mk.inj hw.1).1] at hc
    cases hc
  | some moved =>
    cases there with
    | none => exact hatomic
    | some there =>
      dsimp only
      split_ifs
      · exact hatomic
      · exact .raise fun w hw => hraise w hw.2 fun hnone => by
          rw [← (Prod.mk.inj hw.1).2] at hnone
          cases hnone

/-- There is nothing to remove. -/
theorem Tolerates.removePath {a : Area}
    (h : ∀ w, Held sha256 x S w → w.content a p = none) :
    Triple A (Held sha256 x S) (Job.removePath a p) (fun _ => Held sha256 x S) R K := by
  refine .bind (Q := fun c w => c = none ∧ Held sha256 x S w) (.read fun w hw => ⟨h w hw, hw⟩)
    fun c => .of_pre (fun _ hw => hw.1) fun hc => ?_
  subst hc
  exact .pure fun _ hw => hw.2

end Operations

/-! ## One commit root -/

/-- One commit root is in a state of its own. -/
abbrev HeldAt (sha256 : List UInt8 → List UInt8) (x : Exchange) (S : CString → Slot → Prop)
    (p : CString) (phase : Option Content → Option Content → Slot → Prop) : World → Prop :=
  Held sha256 x (Function.update S p (phase (x.old p) (x.new p)))

/-- The payload is in the stage, and the original in its place or in the backup. -/
def Slot.Removed (o n : Option Content) (s : Slot) : Prop :=
  s.live = none ∧ s.staged = n ∧ (o = none ∨ s.saved = o)

/-- The original is in its place, and is not nothing. -/
def Slot.Untouched (o n : Option Content) (s : Slot) : Prop := s.Pending o n ∧ o ≠ none

section Undo

variable {o n : Option Content} {s : Slot}

theorem Slot.Removed.recoverable (h : s.Removed o n) : s.Recoverable o n := by
  obtain ⟨hlive, hstaged, hsaved⟩ := h
  by_cases ho : o = none
  · exact .inl ⟨hlive.trans ho.symm, hstaged⟩
  · exact .inr (.inl ⟨hlive, hstaged, hsaved.resolve_left ho, ho⟩)

theorem Slot.Recoverable.cases (h : s.Recoverable o n) :
    s.Untouched o n ∨ s.Removed o n ∨ s.Installed o n := by
  rcases h with h | h | h
  · by_cases ho : o = none
    · exact .inr (.inl ⟨h.1.trans ho, h.2, .inl ho⟩)
    · exact .inl ⟨h, ho⟩
  · exact .inr (.inl ⟨h.1, h.2.1, .inr h.2.2.1⟩)
  · exact .inr (.inr h)

variable {sha256 : List UInt8 → List UInt8} {x : Exchange} {S : CString → Slot → Prop}
  {r : Record} {A : World → Fate Cut → Prop} {R K : World → Prop}

/-- The identity of what is not there before the payload is published is not the payload's. -/
theorem takeBack_eq {Φ : World → Prop} {current : Option Identity}
    (h : ¬ (current ≠ none ∧ current = r.digestNew)) :
    Triple A Φ (takeBack sha256 r current) (fun c w => c = current ∧ Φ w) R K := by
  rw [takeBack, if_neg h]
  exact .pure fun _ hw => ⟨rfl, hw⟩

theorem takeBack_installed (ht : Tolerates sha256 x A R K) (hx : x.Sound sha256)
    (hp : r.path ∈ x.paths) (hr : x.Describes sha256 r.path r) (hS : Safe x S) :
    Triple A (HeldAt sha256 x S r.path Slot.Installed) (takeBack sha256 r r.digestNew)
      (fun c w => c = none ∧ HeldAt sha256 x S r.path Slot.Removed w) R K := by
  obtain ⟨c, hc⟩ := Option.ne_none_iff_exists'.mp (hx.staged _ hp)
  have hnew : r.digestNew ≠ none := digestOf_some_ne_none (hc ▸ hr.new)
  have hsafe : Safe x (Function.update S r.path (Slot.Installed (x.old r.path) (x.new r.path))) :=
    hS.update fun s h => .inr (.inr h)
  have hstaged : ∀ w, HeldAt sha256 x S r.path Slot.Installed w →
      w.content .staged r.path = none := fun w hw => (hw.slot hp).2.1
  rw [takeBack, if_pos ⟨hnew, rfl⟩]
  refine .bind (ht.digest hsafe (i := none) fun w hw => digestOf_congr (hstaged w hw) rfl)
    fun staged => .of_pre (fun _ hw => hw.1) fun heq => ?_
  subst heq
  rw [if_pos hnew.symm]
  refine .bind (Q := fun _ => HeldAt sha256 x S r.path Slot.Installed)
    ((Tolerates.removePath hstaged).pre fun _ hw => hw.2) fun _ => ?_
  refine .bind (ht.system hsafe) fun _ => ?_
  refine .bind (ht.rename hp hsafe (fun w hw hne => absurd (hstaged w hw) hne)
    (fun s hs => ⟨c, hs.1.trans hc, ?_⟩) fun h => nomatch h) fun _ => .pure fun _ hw => ⟨rfl, hw⟩
  exact ⟨rfl, hc.symm, hs.2.2⟩

theorem restore_removed (ht : Tolerates sha256 x A R K) (hp : r.path ∈ x.paths)
    (hr : x.Describes sha256 r.path r) (hS : Safe x S) :
    Triple A (HeldAt sha256 x S r.path Slot.Removed) (restore sha256 r none)
      (fun _ => HeldAt sha256 x S r.path Slot.Pending) R K := by
  have hsafe : Safe x (Function.update S r.path (Slot.Removed (x.old r.path) (x.new r.path))) :=
    hS.update fun s h => h.recoverable
  by_cases ho : x.old r.path = none
  · -- there was nothing, whatever the backup has
    have hold : r.digestOld = none := by
      have hdigest := hr.old
      rw [ho] at hdigest
      exact (Except.ok.inj hdigest).symm
    refine .bind (ht.digest_any hsafe fun w hw => hw.backup r.path) fun saved => ?_
    rw [if_neg fun h => h.2 hold]
    exact .pure fun w hw => hw.2.shift fun h => ⟨h.1.trans ho.symm, h.2.1⟩
  · obtain ⟨c, hc⟩ := Option.ne_none_iff_exists'.mp ho
    have hold : r.digestOld ≠ none := digestOf_some_ne_none (hc ▸ hr.old)
    have hsaved : ∀ w, HeldAt sha256 x S r.path Slot.Removed w →
        w.content .saved r.path = x.old r.path := fun w hw => (hw.slot hp).2.2.resolve_left ho
    refine .bind (ht.digest hsafe fun w hw => digestOf_congr (hsaved w hw) hr.old) fun saved =>
      .of_pre (fun _ hw => hw.1) fun heq => ?_
    subst heq
    rw [if_pos ⟨rfl, hold⟩]
    refine .bind ((ht.system hsafe).pre fun _ hw => hw.2) fun _ => ?_
    refine ht.rename hp hsafe (fun w hw hne => absurd (hw.slot hp).1 hne) (fun s hs => ⟨c, ?_, ?_⟩)
      fun h => nomatch h
    · exact (hs.2.2.resolve_left ho).trans hc
    · exact ⟨hc.symm, hs.2.1⟩

/-- What is there is the original. -/
theorem restore_old {Φ : World → Prop} (h : r.digestOld ≠ none) :
    Triple A Φ (restore sha256 r r.digestOld) (fun _ => Φ) R K := by
  obtain ⟨i, hi⟩ := Option.ne_none_iff_exists'.mp h
  rw [hi, restore, if_neg (by rw [hi]; simp)]
  exact .pure fun _ hw => hw

/-- Whatever state the commit root is in, its original is in its place again. -/
theorem rollbackRecord_held (ht : Tolerates sha256 x A R K) (hx : x.Sound sha256)
    (hp : r.path ∈ x.paths) (hr : x.Describes sha256 r.path r) (hS : Safe x S) :
    Triple A (HeldAt sha256 x S r.path Slot.Recoverable) (rollbackRecord sha256 r)
      (fun _ => HeldAt sha256 x S r.path Slot.Pending) R K := by
  obtain ⟨c, hc⟩ := Option.ne_none_iff_exists'.mp (hx.staged _ hp)
  have hnew : r.digestNew ≠ none := digestOf_some_ne_none (hc ▸ hr.new)
  have hdiffer : r.digestOld ≠ r.digestNew := fun heq =>
    hx.differ _ hp (by rw [hr.new, hr.old, heq])
  have hsafe : ∀ phase : Option Content → Option Content → Slot → Prop,
      (∀ s, phase (x.old r.path) (x.new r.path) s →
        s.Recoverable (x.old r.path) (x.new r.path)) →
      Safe x (Function.update S r.path (phase (x.old r.path) (x.new r.path))) :=
    fun phase h => hS.update h
  have hpending : Triple A (HeldAt sha256 x S r.path Slot.Pending)
      (Transaction.setState r.path .pending)
      (fun _ => HeldAt sha256 x S r.path Slot.Pending) R K :=
    ht.setState (hsafe _ fun s h => .inl h) .pending
  refine .bind (Q := fun _ => HeldAt sha256 x S r.path Slot.Recoverable)
    ((Tolerates.ofExcept (hx.valid _ hp _)).post fun _ _ h => h.2) fun _ => ?_
  refine Triple.pre (P := fun w => HeldAt sha256 x S r.path Slot.Untouched w ∨
    HeldAt sha256 x S r.path Slot.Removed w ∨ HeldAt sha256 x S r.path Slot.Installed w)
    (.or ?_ (.or ?_ ?_)) fun w hw => ?_
  · -- what is there has the old identity
    have huntouched := hsafe Slot.Untouched fun s h => .inl h.1
    refine .bind (ht.digest huntouched fun w hw => digestOf_congr (hw.slot hp).1.1 hr.old)
      fun current => .of_pre (fun _ hw => hw.1) fun heq => ?_
    subst heq
    refine .bind (takeBack_eq fun h => hdiffer h.2) fun current =>
      .of_pre (fun _ hw => hw.1) fun heq => ?_
    subst heq
    refine .of_pre (fun w hw => (hw.2.2.slot hp).2) fun ho => ?_
    obtain ⟨d, hd⟩ := Option.ne_none_iff_exists'.mp ho
    refine .bind (restore_old (digestOf_some_ne_none (hd ▸ hr.old))) fun _ => ?_
    exact hpending.pre fun w hw => hw.2.2.shift fun h => h.1
  · -- there is nothing
    have hremoved := hsafe Slot.Removed fun s h => h.recoverable
    refine .bind (ht.digest hremoved (i := none) fun w hw => digestOf_congr (hw.slot hp).1 rfl)
      fun current => .of_pre (fun _ hw => hw.1) fun heq => ?_
    subst heq
    refine .bind (takeBack_eq fun h => h.1 rfl) fun current =>
      .of_pre (fun _ hw => hw.1) fun heq => ?_
    subst heq
    exact .bind ((restore_removed ht hp hr hS).pre fun _ hw => hw.2.2) fun _ => hpending
  · -- what is there has the new identity
    have hinstalled := hsafe Slot.Installed fun s h => .inr (.inr h)
    refine .bind (ht.digest hinstalled fun w hw => digestOf_congr (hw.slot hp).1 hr.new)
      fun current => .of_pre (fun _ hw => hw.1) fun heq => ?_
    subst heq
    refine .bind ((takeBack_installed ht hx hp hr hS).pre fun _ hw => hw.2) fun current =>
      .of_pre (fun _ hw => hw.1) fun heq => ?_
    subst heq
    exact .bind ((restore_removed ht hp hr hS).pre fun _ hw => hw.2) fun _ => hpending
  · rcases (hw.slot hp).cases with h | h | h
    · exact .inl (hw.shift fun _ => h)
    · exact .inr (.inl (hw.shift fun _ => h))
    · exact .inr (.inr (hw.shift fun _ => h))

end Undo

/-! ## Removing a backup -/

section Remove

variable {sha256 : List UInt8 → List UInt8} {w : World} {a b : Area} {p : CString}

@[simp] theorem World.content_clear :
    (w.clear a).content b p = if b = a then none else w.content b p := rfl

@[simp] theorem World.content_cutArea {keep : Cut} : (w.cutArea a keep).content b p =
    if b = a then (w.content b p).bind fun c => c.cut (keep p) else w.content b p := rfl

theorem digestible_folder_iff {files : List (CString × List UInt8)} :
    Digestible sha256 p (some (.folder files)) ↔
      ∀ f ∈ files, (cstr ".part").isSuffixOf f.1 = false := by
  have hnone : (files.find? fun f => (cstr ".part").isSuffixOf f.1) = none ↔
      ∀ f ∈ files, (cstr ".part").isSuffixOf f.1 = false := by
    simp only [List.find?_eq_none, Bool.not_eq_true]
  rw [← hnone]
  constructor
  · rintro ⟨i, hi⟩
    rw [digestOf, treeStats] at hi
    split at hi
    · cases hi
    · assumption
  · intro h
    exact ⟨_, by rw [digestOf, treeStats, h]; rfl⟩

/-- What is left of a folder has an identity of its own. -/
theorem Digestible.cut {c : Option Content} (h : Digestible sha256 p c) (keep : CString → Bool) :
    Digestible sha256 p (c.bind fun c => c.cut keep) := by
  match c with
  | none => exact h
  | some (.file bytes) =>
    cases hkeep : keep [] <;> simp only [Option.bind_some, Content.cut, hkeep]
    · exact digestible_none
    · exact h
  | some (.folder files) =>
    simp only [Option.bind_some, Content.cut]
    split_ifs
    · exact digestible_none
    · exact digestible_folder_iff.mpr fun f hf =>
        digestible_folder_iff.mp h f (List.mem_filter.mp hf).1

end Remove

/-! ## The rollback -/

/-- The transaction is over, and has changed nothing. -/
structure Undone (sha256 : List UInt8 → List UInt8) (x : Exchange) (w : World) : Prop where
  slots : ∀ p ∈ x.paths, (w.slot p).Pending (x.old p) (x.new p)
  others : ∀ p ∉ x.paths, w.content .live p = x.old p
  backup : ∀ p, Digestible sha256 p (w.content .saved p)
  marker : w.marker = x.marker
  journal : w.journal = none

section Rollback

variable {sha256 : List UInt8 → List UInt8} {x : Exchange} {A : World → Fate Cut → Prop}
  {R K : World → Prop} {w : World}

theorem Undone.clear (h : Undone sha256 x w) : Undone sha256 x (w.clear .saved) :=
  { h with backup := fun _ => digestible_none }

theorem Undone.cutArea (h : Undone sha256 x w) (keep : Cut) :
    Undone sha256 x (w.cutArea .saved keep) :=
  { h with backup := fun p => (h.backup p).cut (keep p) }

/-- The records that have been dealt with are undone. -/
theorem rollback_records (ht : Tolerates sha256 x A R K) (hx : x.Sound sha256)
    (records : List Record) (hrecords : ∀ r ∈ records, ∃ p ∈ x.paths, x.Describes sha256 p r) :
    Triple A (Undoable sha256 x) (Process.each (rollbackRecord sha256) records)
      (fun _ => Held sha256 x fun p s => s.Recoverable (x.old p) (x.new p) ∧
        (p ∈ records.map Record.path → s.Pending (x.old p) (x.new p))) R K := by
  refine Triple.pre (Triple.each (I := fun done => Held sha256 x fun p s =>
    s.Recoverable (x.old p) (x.new p) ∧ (p ∈ done.map Record.path → s.Pending (x.old p) (x.new p)))
    fun done r todo heq => ?_) fun w hw => hw.mono fun p _ s hs => ⟨hs, fun h => nomatch h⟩
  obtain ⟨p, hp, hr⟩ := hrecords r (by simp [heq])
  obtain rfl := hr.path
  refine (rollbackRecord_held ht hx hp hr fun q _ s hs => hs.1).conseq
    (fun w hw => hw.update fun hp => (hw.slots _ hp).1) (fun _ w hw => ?_) (fun _ h => h)
    fun _ h => h
  refine hw.mono fun q hq s hs => ?_
  by_cases heq : q = r.path
  · subst heq
    rw [Function.update_self] at hs
    exact ⟨.inl hs, fun _ => hs⟩
  · rw [Function.update_of_ne heq] at hs
    refine ⟨hs.1, fun hmem => hs.2 ?_⟩
    simpa [heq] using hmem

/-- From every state in which the process may have been killed, and in which an operation may
have failed, the rollback leads back to the original, unless it is killed or fails itself, and
then it can be begun anew. -/
theorem rollback_undoes (ht : Tolerates sha256 x A R K) (hx : x.Sound sha256)
    (hK : ∀ w, Undone sha256 x w → Kills A → K w) :
    Triple A (Undoable sha256 x) (rollback sha256) (fun _ => Undone sha256 x) R K := by
  refine .bind (Q := fun records w =>
    List.Forall₂ (x.Describes sha256) x.paths records ∧ Undoable sha256 x w) (.read fun w hw => ?_)
    fun records => .of_pre (fun _ hw => hw.1) fun hrecords => ?_
  · obtain ⟨j, hj, hmatch⟩ := hw.data
    rw [hj]
    exact ⟨hmatch.paths, hw⟩
  refine .bind ((rollback_records ht hx records.reverse fun r hr => ?_).pre
    fun _ hw => hw.2) fun _ => ?_
  · exact exists_of_forall₂ (r := fun r p => x.Describes sha256 p r) hrecords.flip
      (List.mem_reverse.mp hr)
  refine .bind (Q := fun _ => Undone sha256 x) (ht.atomic (fun p _ s hs => hs.1) fun w hw => ?_)
    fun _ => .operation (fun w hw => hw.clear) (fun keep w _ hw => hw.cutArea keep)
      fun keep w hcut hw => hK _ (hw.cutArea keep) ⟨w, keep, hcut⟩
  refine ⟨fun p hp => (hw.slots p hp).2 ?_, hw.others, hw.backup, hw.marker, rfl⟩
  obtain ⟨r, hr, hdescribes⟩ := exists_of_forall₂ hrecords hp
  exact List.mem_map.mpr ⟨r, List.mem_reverse.mpr hr, hdescribes.path⟩

end Rollback

end NfsmwRuntime.Install
