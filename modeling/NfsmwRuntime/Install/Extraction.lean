import Mathlib.Data.List.Forall2
import Mathlib.Data.List.Pairwise
import NfsmwRuntime.Install.Staging

/-!
# One extraction

An extraction changes what is above the paths of its items, at them, and at and below their parts.
A path of the plan holds at each point what it held before, or the whole of what its package has
for it.
-/

namespace NfsmwRuntime.Install

open Library Process

/-! ## Paths -/

section Paths

variable {p q r : Names}

theorem length_partOf (hp : p ≠ []) : (partOf p).length = p.length := by
  have := List.length_pos_iff.mpr hp
  simp [partOf]
  omega

theorem partOf_ne_nil : partOf p ≠ [] := by simp [partOf]

theorem dropLast_partOf : (partOf p).dropLast = p.dropLast := by simp [partOf]

theorem not_isPrefix_dropLast (hp : p ≠ []) : ¬ p <+: p.dropLast := by
  intro h
  have := h.length_le
  have := List.length_pos_iff.mpr hp
  rw [List.length_dropLast] at *
  omega

theorem partOf_not_isPrefix_self (hp : p ≠ []) : ¬ partOf p <+: p := by
  intro h
  have hlast := congrArg (fun l => (l.getLastD []).length) (h.eq_of_length (length_partOf hp))
  simp [partOf, cstr] at hlast

theorem partOf_inj (hp : p ≠ []) (hq : q ≠ []) (h : partOf p = partOf q) : p = q := by
  obtain ⟨names, name, rfl⟩ := (List.eq_nil_or_concat p).resolve_left hp
  obtain ⟨names', name', rfl⟩ := (List.eq_nil_or_concat q).resolve_left hq
  simpa [partOf] using h

theorem isPrefix_dropLast_of_ne (h : p <+: q) (hne : p ≠ q) : p <+: q.dropLast := by
  obtain ⟨rest, rfl⟩ := h
  have hrest : rest ≠ [] := by
    rintro rfl
    exact hne (List.append_nil p).symm
  exact List.dropLast_append_of_ne_nil hrest ▸ List.prefix_append p _

/-- What an item with the path `p` may change. -/
def Touches (p q : Names) : Prop := q <+: p.dropLast ∨ partOf p <+: q ∨ q = p

/-- The path `q` is not `p`, nor below it or below its part. -/
structure Apart (p q : Names) : Prop where
  path : ¬ p <+: q
  part : ¬ partOf p <+: q

def AllApart (paths : List Names) : Prop := paths.Pairwise fun p q => Apart p q ∧ Apart q p

theorem AllApart.apart {paths : List Names} (h : AllApart paths) (hp : p ∈ paths) (hq : q ∈ paths)
    (hne : p ≠ q) : Apart p q := by
  have : Std.Symm fun p q => Apart p q ∧ Apart q p := ⟨fun _ _ h => h.symm⟩
  exact (List.Pairwise.forall h hp hq hne).1

theorem Apart.not_touches (h : Apart p q) (h' : Apart q p) : ¬ Touches p q := by
  rintro (hq | hq | rfl)
  · exact h'.path (hq.trans (List.dropLast_prefix p))
  · exact h.part hq
  · exact h.path List.prefix_rfl

theorem Apart.not_touches_partOf (h : Apart p q) (h' : Apart q p) (hp : p ≠ []) (hq : q ≠ []) :
    ¬ Touches p (partOf q) := by
  rintro (htouch | htouch | rfl)
  · exact h'.part (htouch.trans (List.dropLast_prefix p))
  · by_cases heq : partOf p = partOf q
    · exact h.path (partOf_inj hp hq heq ▸ List.prefix_rfl)
    · have hbelow := isPrefix_dropLast_of_ne htouch heq
      rw [dropLast_partOf] at hbelow
      exact h.part (hbelow.trans (List.dropLast_prefix q))
  · exact h'.part List.prefix_rfl

theorem not_above_partOf (hp : p ≠ []) : ¬ partOf p <+: p.dropLast := fun h =>
  partOf_not_isPrefix_self hp (h.trans (List.dropLast_prefix p))

end Paths

/-! ## The parts of an extraction -/

variable {A : StageDisk → Fate Damage → Prop} {d₀ d : StageDisk} {path : Names}

/-- There is no file where the path needs a folder, and no folder where it needs a file. -/
structure Clear (d : StageDisk) (path : Names) : Prop where
  above : ∀ q, q <+: path.dropLast → ∀ bytes, d.tree q ≠ some (.file bytes)
  part : d.tree (partOf path) ≠ some .folder
  here : d.tree path ≠ some .folder

/-- There may be folders above the path, the part may have changed, and nothing else has. -/
structure Begun (d₀ : StageDisk) (path : Names) (d : StageDisk) : Prop where
  state : d.state = d₀.state
  tree : ∀ q, ¬ q <+: path.dropLast → ¬ partOf path <+: q → d.tree q = d₀.tree q
  above : ∀ q, q <+: path.dropLast → d.tree q = d₀.tree q ∨ d.tree q = some .folder
  part : Clear d₀ path → d.tree (partOf path) ≠ some .folder

theorem Begun.refl (d : StageDisk) (path : Names) : Begun d path d :=
  ⟨rfl, fun _ _ _ => rfl, fun _ _ => .inl rfl, Clear.part⟩

@[simp] theorem StageDisk.tree_set (q : Names) (node : Option Node) :
    (d.set path node).tree q = if q = path then node else d.tree q := by
  simp [set, Function.update_apply]

@[simp] theorem StageDisk.state_set (node : Option Node) : (d.set path node).state = d.state := rfl

theorem StageDisk.tree_prune_of_not {q : Names} (h : ¬ path <+: q) (keep : Names → Bool) :
    (d.prune path keep).tree q = d.tree q := by
  simp [prune, h]

theorem StageDisk.tree_prune (q : Names) (keep : Names → Bool) :
    (d.prune path keep).tree q = none ∨ (d.prune path keep).tree q = d.tree q := by
  unfold prune
  dsimp only
  split_ifs <;> simp

/-- A folder goes after what is in it. -/
theorem StageDisk.tree_prune_eq_none {q r : Names} {keep : Names → Bool} (hq : r <+: q)
    (hr : path <+: r) (hkeep : keep r = false) : (d.prune path keep).tree q = none := by
  refine if_pos ?_
  simp only [Bool.and_eq_true, List.isPrefixOf_iff_prefix, List.any_eq_true, List.mem_inits]
  exact ⟨hr.trans hq, r, hq, hr, by simp [hkeep]⟩

/-- A folder is made where there is none. -/
theorem Begun.set_folder (h : Begun d₀ path d) {q : Names} (hq : q <+: path.dropLast)
    (hpath : path ≠ []) : Begun d₀ path (d.set q (some .folder)) where
  state := h.state
  tree r habove hpart := by
    rw [StageDisk.tree_set, if_neg (by rintro rfl; exact habove hq), h.tree r habove hpart]
  above r hr := by
    rw [StageDisk.tree_set]
    split_ifs
    · exact .inr rfl
    · exact h.above r hr
  part hclear := by
    rw [StageDisk.tree_set, if_neg (by rintro rfl; exact not_above_partOf hpath hq)]
    exact h.part hclear

/-- A file is written or removed where the part is. -/
theorem Begun.set_part (h : Begun d₀ path d) (hpath : path ≠ []) {node : Option Node}
    (hnode : node ≠ some .folder) : Begun d₀ path (d.set (partOf path) node) where
  state := h.state
  tree r habove hpart := by
    rw [StageDisk.tree_set, if_neg (by rintro rfl; exact hpart List.prefix_rfl),
      h.tree r habove hpart]
  above r hr := by
    rw [StageDisk.tree_set, if_neg (by rintro rfl; exact not_above_partOf hpath hr)]
    exact h.above r hr
  part _ := by rwa [StageDisk.tree_set, if_pos rfl]

theorem Begun.prune_part (h : Begun d₀ path d) (hpath : path ≠ []) (keep : Names → Bool) :
    Begun d₀ path (d.prune (partOf path) keep) where
  state := h.state
  tree r habove hpart := by
    rw [StageDisk.tree_prune_of_not hpart, h.tree r habove hpart]
  above r hr := by
    rw [StageDisk.tree_prune_of_not fun hbelow => not_above_partOf hpath (hbelow.trans hr)]
    exact h.above r hr
  part hclear := by
    rcases StageDisk.tree_prune (d := d) (partOf path) keep with heq | heq
    · exact heq ▸ nofun
    · exact heq ▸ h.part hclear

/-- An operation that cannot fail but by a fault leaves the path as it is when it fails. -/
def Halted (A : StageDisk → Fate Damage → Prop) (d₀ : StageDisk) (path : Names)
    (d : StageDisk) : Prop :=
  Begun d₀ path d ∧ (Clear d₀ path → Fails A)

namespace StageJob

theorem mkdir_begun {q : Names} (hq : q <+: path.dropLast) (hpath : path ≠ []) :
    Triple A (Begun d₀ path) (mkdir q) (fun _ => Begun d₀ path) (Halted A d₀ path)
      (Begun d₀ path) := by
  refine .bind (Q := fun found d => Begun d₀ path d ∧ d.tree q = found)
    (.read fun d hd => ⟨hd, rfl⟩) fun found => ?_
  match found with
  | some .folder => exact .pure fun d hd => hd.1
  | some (.file bytes) =>
    refine .raise fun d hd => ⟨hd.1, fun hclear => ?_⟩
    rcases hd.1.above q hq with heq | heq
    · exact absurd (heq ▸ hd.2) (hclear.above q hq bytes)
    · exact absurd (heq.symm.trans hd.2) nofun
  | none =>
    exact .atomic (fun d hd => hd.1.set_folder hq hpath)
      (fun d cut hfault hd => ⟨hd.1, fun _ => ⟨d, cut, hfault⟩⟩) fun d cut _ hd => hd.1

theorem makedirs_begun (hpath : path ≠ []) :
    Triple A (Begun d₀ path) (makedirs path.dropLast) (fun _ => Begun d₀ path)
      (Halted A d₀ path) (Begun d₀ path) :=
  .each_keeps fun _ hq => mkdir_begun ((List.mem_inits _ _).mp hq) hpath

theorem removePath_begun (hpath : path ≠ []) :
    Triple A (Begun d₀ path) (removePath (partOf path))
      (fun _ d => Begun d₀ path d ∧ (Clear d₀ path → d.tree (partOf path) = none))
      (fun d => Begun d₀ path d ∧ Fails A) (Begun d₀ path) := by
  refine .bind (Q := fun found d => Begun d₀ path d ∧ d.tree (partOf path) = found)
    (.read fun d hd => ⟨hd, rfl⟩) fun found => ?_
  match found with
  | none => exact .pure fun d hd => ⟨hd.1, fun _ => hd.2⟩
  | some (.file bytes) =>
    exact .atomic (fun d hd => ⟨hd.1.set_part hpath nofun, fun _ => by simp⟩)
      (fun d cut hfault hd => ⟨hd.1, d, cut, hfault⟩) fun d cut _ hd => hd.1
  | some .folder =>
    exact .operation
      (fun d hd => ⟨hd.1.prune_part hpath _, fun hclear => absurd hd.2 (hd.1.part hclear)⟩)
      (fun cut d _ hd => ⟨hd.1.prune_part hpath _, fun hclear => absurd hd.2 (hd.1.part hclear)⟩)
      fun cut d _ hd => hd.1.prune_part hpath _

theorem writeNew_begun (hpath : path ≠ []) (bytes : List UInt8) :
    Triple A (fun d => Begun d₀ path d ∧ (Clear d₀ path → d.tree (partOf path) = none))
      (writeNew (partOf path) bytes)
      (fun _ d => Begun d₀ path d ∧ d.tree (partOf path) = some (.file bytes))
      (Halted A d₀ path) (Begun d₀ path) := by
  refine .bind (Q := fun found d => (Begun d₀ path d ∧
      (Clear d₀ path → d.tree (partOf path) = none)) ∧ d.tree (partOf path) = found)
    (.read fun d hd => ⟨hd, rfl⟩) fun found => ?_
  split_ifs with hfound
  · refine .raise fun d hd => ⟨hd.1.1, fun hclear => ?_⟩
    rw [← hd.2, hd.1.2 hclear] at hfound
    cases hfound
  · have hbegin : ∀ cut (d : StageDisk), Begun d₀ path d →
        Begun d₀ path (d.begin (partOf path) bytes cut) := fun cut d hd =>
      hd.set_part hpath (by cases cut.written <;> simp)
    exact .operation (fun d hd => ⟨hd.1.1.set_part hpath nofun, by simp⟩)
      (fun cut d hfault hd => ⟨hbegin cut d hd.1.1, fun _ => ⟨d, cut, hfault⟩⟩)
      fun cut d _ hd => hbegin cut d hd.1.1

end StageJob

/-- The part has taken the place of the path. -/
structure Extracted (d₀ : StageDisk) (path : Names) (bytes : List UInt8) (d : StageDisk) :
    Prop where
  state : d.state = d₀.state
  tree : ∀ q, ¬ Touches path q → d.tree q = d₀.tree q
  above : ∀ q, q <+: path.dropLast → d.tree q = d₀.tree q ∨ d.tree q = some .folder
  here : d.tree path = some (.file bytes)
  part : d.tree (partOf path) = none

namespace StageJob

theorem replace_extracted (hpath : path ≠ []) (bytes : List UInt8) :
    Triple A (fun d => Begun d₀ path d ∧ d.tree (partOf path) = some (.file bytes))
      (replace (partOf path) path) (fun _ => Extracted d₀ path bytes) (Halted A d₀ path)
      (Begun d₀ path) := by
  refine .bind (Q := fun moved d => (Begun d₀ path d ∧
      d.tree (partOf path) = some (.file bytes)) ∧ moved = some (.file bytes))
    (.read fun d hd => ⟨hd, hd.2⟩) fun moved => ?_
  refine .of_pre (fun d hd => hd.2) fun hmoved => ?_
  subst hmoved
  refine .bind (Q := fun there d => (Begun d₀ path d ∧
      d.tree (partOf path) = some (.file bytes)) ∧ d.tree path = there)
    (.read fun d hd => ⟨hd.1, rfl⟩) fun there => ?_
  dsimp only
  split_ifs with hraise
  · refine .raise fun d hd => ⟨hd.1.1, fun hclear => ?_⟩
    obtain ⟨⟨hbegun, -⟩, rfl⟩ := hd
    rw [hbegun.tree path (not_isPrefix_dropLast hpath) (partOf_not_isPrefix_self hpath)] at hraise
    exact absurd hraise hclear.here
  · refine .atomic (fun d hd => ?_) (fun d cut hfault hd => ⟨hd.1.1, fun _ => ⟨d, cut, hfault⟩⟩)
      fun d cut _ hd => hd.1.1
    obtain ⟨⟨hbegun, -⟩, -⟩ := hd
    have hne : path ≠ partOf path := fun heq =>
      partOf_not_isPrefix_self hpath (heq ▸ List.prefix_rfl)
    have hsame : ∀ q, ¬ partOf path <+: q → q ≠ path →
        ((d.set path (some (.file bytes))).set (partOf path) none).tree q = d.tree q := by
      intro q hbelow hother
      rw [StageDisk.tree_set, if_neg (by rintro rfl; exact hbelow List.prefix_rfl),
        StageDisk.tree_set, if_neg hother]
    refine ⟨hbegun.state, fun q hq => ?_, fun q hq => ?_, by simp [hne], by simp⟩
    · obtain ⟨habove, hbelow, hother⟩ :
          ¬ q <+: path.dropLast ∧ ¬ partOf path <+: q ∧ q ≠ path := by
        simpa only [Touches, not_or] using hq
      rw [hsame q hbelow hother, hbegun.tree q habove hbelow]
    · rw [hsame q (fun hbelow => not_above_partOf hpath (hbelow.trans hq))
        (by rintro rfl; exact not_isPrefix_dropLast hpath hq)]
      exact hbegun.above q hq

theorem ofExcept_triple {α : Type} {result : Except Failure α} {P R K : StageDisk → Prop}
    (hR : ∀ e, result = .error e → ∀ d, P d → R d) :
    Triple A P (ofExcept result) (fun a d => result = .ok a ∧ P d) R K := by
  cases result with
  | ok a => exact .pure fun d hd => ⟨rfl, hd⟩
  | error e => exact .raise (hR e rfl)

/-- What the cleanup does is done in any case. -/
theorem andFinally_triple {α : Type} {p : StageJob α} {cleanup : StageJob Unit}
    {P R K : StageDisk → Prop} {Q : α → StageDisk → Prop} (hp : Triple A P p Q R K)
    (hR : Triple A R cleanup (fun _ => R) R K)
    (hQ : ∀ a, Triple A (Q a) cleanup (fun _ => Q a) R K) :
    Triple A P (andFinally p cleanup) Q R K :=
  .bind (.onError hp hR) fun a => .bind (hQ a) fun _ => .pure fun _ hd => hd

end StageJob

/-! ## One item -/

section Items

variable {sha256 : List UInt8 → List UInt8} {crc32 : List UInt8 → Nat}
  {source : Names → List UInt8} {item : Item}

/-- The file that is there and need not be extracted again. -/
def kept (sha256 : List UInt8 → List UInt8) (crc32 : List UInt8 → Nat) (d : StageDisk)
    (item : Item) : Option (List UInt8) :=
  match d.tree item.names with
  | some (.file bytes) => if item.Accepts sha256 crc32 bytes then some bytes else none
  | _ => none

theorem kept_eq_some {bytes : List UInt8} : kept sha256 crc32 d item = some bytes ↔
    d.tree item.names = some (.file bytes) ∧ item.Accepts sha256 crc32 bytes := by
  unfold kept
  split <;> simp_all
  grind

theorem kept_congr (h : d.tree item.names = d₀.tree item.names) :
    kept sha256 crc32 d item = kept sha256 crc32 d₀ item := by
  rw [kept, h, kept]

theorem checkExtracted_eq_ok {bytes : List UInt8} :
    checkExtracted sha256 crc32 item bytes = .ok () ↔ item.Accepts sha256 crc32 bytes := by
  simp only [checkExtracted, bind_eq_ok, check_eq_ok, Item.Accepts]
  constructor
  · rintro ⟨-, hsize, -, hcrc, hsha⟩
    exact ⟨hsize, hcrc, hsha⟩
  · rintro ⟨hsize, hcrc, hsha⟩
    exact ⟨(), hsize, (), hcrc, hsha⟩

theorem itemAlreadyStaged_triple : Triple A (fun d => d = d₀) (itemAlreadyStaged sha256 crc32 item)
    (fun seen d => d = d₀ ∧ seen = (kept sha256 crc32 d₀ item).map (item.record sha256 crc32))
    (fun d => d = d₀ ∧ Fails A) (fun d => d = d₀) := by
  refine .bind (Q := fun found d => d = d₀ ∧ found = d₀.tree item.names)
    (.read fun d hd => ⟨hd, hd ▸ rfl⟩) fun found => ?_
  match found with
  | some (.file bytes) =>
    refine .bind (Q := fun _ d => d = d₀ ∧ some (.file bytes) = d₀.tree item.names)
      (.atomic (fun d hd => hd) (fun d cut hfault hd => ⟨hd.1, d, cut, hfault⟩)
        fun d cut _ hd => hd.1) fun _ => .pure fun d hd => ⟨hd.1, ?_⟩
    unfold kept
    rw [← hd.2]
    dsimp only
    split_ifs <;> rfl
  | some .folder => exact .pure fun d hd => ⟨hd.1, by unfold kept; rw [← hd.2]; rfl⟩
  | none => exact .pure fun d hd => ⟨hd.1, by unfold kept; rw [← hd.2]; rfl⟩

/-- Nothing but a fault is in the way of the extraction of the item. -/
structure Extractable (sha256 : List UInt8 → List UInt8) (crc32 : List UInt8 → Nat)
    (source : Names → List UInt8) (d : StageDisk) (item : Item) : Prop where
  clear : Clear d item.names
  valid : validateRelativePath (cstr "stage destination") item.destination.text = .ok ()
  accepts : kept sha256 crc32 d item = none → item.Accepts sha256 crc32 (source item.names)

/-- The item is on the stage: it was there, or it has been extracted. -/
inductive ItemDone (sha256 : List UInt8 → List UInt8) (crc32 : List UInt8 → Nat)
    (source : Names → List UInt8) (d₀ : StageDisk) (item : Item) (d : StageDisk) : Item → Prop
  | kept (bytes : List UInt8) (h : kept sha256 crc32 d₀ item = some bytes) (hd : d = d₀) :
    ItemDone sha256 crc32 source d₀ item d (item.record sha256 crc32 bytes)
  | extracted (h : Install.kept sha256 crc32 d₀ item = none)
      (haccepts : item.Accepts sha256 crc32 (source item.names))
      (hd : Extracted d₀ item.names (source item.names) d) :
    ItemDone sha256 crc32 source d₀ item d (item.record sha256 crc32 (source item.names))

/-- The item is not on the stage, and what is at its path has not changed. -/
def ItemBegun (sha256 : List UInt8 → List UInt8) (crc32 : List UInt8 → Nat) (d₀ : StageDisk)
    (item : Item) (d : StageDisk) : Prop :=
  d = d₀ ∨ kept sha256 crc32 d₀ item = none ∧ Begun d₀ item.names d

theorem extractItem_triple :
    Triple A (fun d => d = d₀) (extractItem sha256 crc32 source item)
      (fun seen d => ItemDone sha256 crc32 source d₀ item d seen)
      (fun d => ItemBegun sha256 crc32 d₀ item d ∧
        (Extractable sha256 crc32 source d₀ item → Fails A))
      (ItemBegun sha256 crc32 d₀ item) := by
  have hpath := item.names_ne_nil
  refine .bind (itemAlreadyStaged_triple.conseq (fun _ hd => hd) (fun _ _ h => h)
    (fun d hd => ⟨.inl hd.1, fun _ => hd.2⟩) fun d hd => .inl hd) fun seen => ?_
  refine .of_pre (fun d hd => hd.2) fun hseen => ?_
  subst hseen
  cases hkept : kept sha256 crc32 d₀ item with
  | some bytes => exact .pure fun d hd => .kept bytes hkept hd.1
  | none =>
    refine Triple.conseq (P := Begun d₀ item.names) (R := fun d => Begun d₀ item.names d ∧
        (Extractable sha256 crc32 source d₀ item → Fails A)) (K := Begun d₀ item.names) ?_
      (fun d hd => hd.1 ▸ Begun.refl d _) (fun _ _ h => h) (fun d hd => ⟨.inr ⟨hkept, hd.1⟩, hd.2⟩)
      fun d hd => .inr ⟨hkept, hd⟩
    have hhalted : ∀ d, Halted A d₀ item.names d → Begun d₀ item.names d ∧
        (Extractable sha256 crc32 source d₀ item → Fails A) :=
      fun d hd => ⟨hd.1, fun hitem => hd.2 hitem.clear⟩
    have hcleanup : ∀ {P : StageDisk → Prop}, (∀ d, P d → Begun d₀ item.names d) →
        Triple A P (StageJob.removePath (partOf item.names))
          (fun _ d => Begun d₀ item.names d ∧
            (Clear d₀ item.names → d.tree (partOf item.names) = none))
          (fun d => Begun d₀ item.names d ∧ (Extractable sha256 crc32 source d₀ item → Fails A))
          (Begun d₀ item.names) := fun hP =>
      (StageJob.removePath_begun hpath).conseq hP (fun _ _ h => h)
        (fun d hd => ⟨hd.1, fun _ => hd.2⟩) fun _ h => h
    refine .bind ((StageJob.ofExcept_triple fun e he d hd => ⟨hd, fun hitem =>
      absurd (he.symm.trans hitem.valid) nofun⟩).post fun _ _ h => h.2) fun _ => ?_
    refine .bind ((StageJob.makedirs_begun hpath).conseq (fun _ h => h) (fun _ _ h => h) hhalted
      fun _ h => h) fun _ => ?_
    refine .bind (hcleanup fun _ h => h) fun _ => ?_
    refine StageJob.andFinally_triple ?_ ?_ fun seen => ?_
    · refine .bind ((StageJob.writeNew_begun hpath _).conseq (fun _ h => h) (fun _ _ h => h) hhalted
        fun _ h => h) fun _ => ?_
      refine .bind (StageJob.ofExcept_triple fun e he d hd => ⟨hd.1, fun hitem => absurd
        (he.symm.trans (checkExtracted_eq_ok.mpr (hitem.accepts hkept))) nofun⟩) fun _ => ?_
      refine .of_pre (fun d hd => hd.1) fun hcheck => ?_
      refine .bind ((StageJob.replace_extracted hpath _).conseq (fun _ h => h.2) (fun _ _ h => h)
        hhalted fun _ h => h) fun _ => .pure fun d hd => ?_
      exact .extracted hkept (checkExtracted_eq_ok.mp hcheck) hd
    · refine .of_states fun d₁ hd₁ => ?_
      exact (hcleanup (P := fun d => d = d₁) fun d hd => hd ▸ hd₁.1).post fun _ d hd =>
        ⟨hd.1, hd₁.2⟩
    · refine .bind (Q := fun found d => ItemDone sha256 crc32 source d₀ item d seen ∧ found = none)
        (.read fun d hd => ⟨hd, ?_⟩) fun found => ?_
      · cases hd with
        | kept bytes h => exact absurd (hkept.symm.trans h) nofun
        | extracted _ _ hd => exact hd.part
      · refine .of_pre (fun d hd => hd.2) fun hfound => ?_
        subst hfound
        exact .pure fun d hd => hd.1

/-! ## All items -/

variable (sha256 crc32 source) in
/-- What was at the path of the item is there still, and its part may have changed if the item is
being extracted; or the item has been extracted. -/
def ItemPartway (d₀ : StageDisk) (item : Item) (d : StageDisk) : Prop :=
  d.tree item.names = d₀.tree item.names ∧
    (d.tree (partOf item.names) = d₀.tree (partOf item.names) ∨
      kept sha256 crc32 d₀ item = none) ∨
  kept sha256 crc32 d₀ item = none ∧ item.Accepts sha256 crc32 (source item.names) ∧
    d.tree item.names = some (.file (source item.names)) ∧ d.tree (partOf item.names) = none

variable (sha256 crc32 source) in
structure Partway (d₀ : StageDisk) (items : List Item) (d : StageDisk) : Prop where
  state : d.state = d₀.state
  tree : ∀ q, (∀ item ∈ items, ¬ Touches item.names q) → d.tree q = d₀.tree q
  items : ∀ item ∈ items, ItemPartway sha256 crc32 source d₀ item d

variable (sha256 crc32) in
/-- The item is on the stage, and what is known of it has been seen there. -/
def SeenAs (d : StageDisk) (item seen : Item) : Prop :=
  ∃ bytes, kept sha256 crc32 d item = some bytes ∧ seen = item.record sha256 crc32 bytes

/-- Two disks have the same at the path and at its part. -/
def AgreeAt (path : Names) (d d' : StageDisk) : Prop :=
  d.tree path = d'.tree path ∧ d.tree (partOf path) = d'.tree (partOf path)

theorem ItemPartway.congr {d₁ d' : StageDisk} (h : ItemPartway sha256 crc32 source d₀ item d)
    (h₀ : AgreeAt item.names d₀ d₁) (h' : AgreeAt item.names d d') :
    ItemPartway sha256 crc32 source d₁ item d' := by
  unfold ItemPartway at h ⊢
  rwa [← kept_congr h₀.1, ← h₀.1, ← h₀.2, ← h'.1, ← h'.2]

section Steps

variable {d₁ : StageDisk} {seen : Item} {items : List Item}

/-- What one item leaves to the others. -/
structure Leaves (d₀ : StageDisk) (path : Names) (d : StageDisk) : Prop where
  state : d.state = d₀.state
  tree : ∀ q, ¬ Touches path q → d.tree q = d₀.tree q
  above : ∀ q, q <+: path.dropLast → d.tree q = d₀.tree q ∨ d.tree q = some .folder

theorem ItemDone.leaves (h : ItemDone sha256 crc32 source d₀ item d seen) :
    Leaves d₀ item.names d := by
  cases h with
  | kept bytes h hd => exact hd ▸ ⟨rfl, fun _ _ => rfl, fun _ _ => .inl rfl⟩
  | extracted h haccepts hd => exact ⟨hd.state, hd.tree, hd.above⟩

theorem ItemBegun.leaves (h : ItemBegun sha256 crc32 d₀ item d) : Leaves d₀ item.names d := by
  rcases h with rfl | ⟨-, h⟩
  · exact ⟨rfl, fun _ _ => rfl, fun _ _ => .inl rfl⟩
  · refine ⟨h.state, fun q hq => h.tree q (fun habove => hq (.inl habove)) fun hbelow =>
      hq (.inr (.inl hbelow)), h.above⟩

theorem ItemDone.partway (h : ItemDone sha256 crc32 source d₀ item d seen) :
    ItemPartway sha256 crc32 source d₀ item d := by
  cases h with
  | kept bytes h hd => exact .inl ⟨hd ▸ rfl, .inl (hd ▸ rfl)⟩
  | extracted h haccepts hd => exact .inr ⟨h, haccepts, hd.here, hd.part⟩

theorem ItemBegun.partway (h : ItemBegun sha256 crc32 d₀ item d) :
    ItemPartway sha256 crc32 source d₀ item d := by
  rcases h with rfl | ⟨hkept, h⟩
  · exact .inl ⟨rfl, .inl rfl⟩
  · exact .inl ⟨h.tree _ (not_isPrefix_dropLast item.names_ne_nil)
      (partOf_not_isPrefix_self item.names_ne_nil), .inr hkept⟩

theorem ItemDone.seenAs (h : ItemDone sha256 crc32 source d₀ item d seen) :
    SeenAs sha256 crc32 d item seen := by
  cases h with
  | kept bytes h hd => exact ⟨bytes, hd ▸ h, rfl⟩
  | extracted h haccepts hd => exact ⟨_, kept_eq_some.mpr ⟨hd.here, haccepts⟩, rfl⟩

/-- The item in front is apart from the others. -/
structure Heads (item : Item) (items : List Item) : Prop where
  tail : AllApart (items.map Item.names)
  apart : ∀ other ∈ items, Apart item.names other.names ∧ Apart other.names item.names

theorem AllApart.heads (h : AllApart ((item :: items).map Item.names)) : Heads item items := by
  obtain ⟨hhead, htail⟩ := List.pairwise_cons.mp h
  exact ⟨htail, fun other hother => hhead _ (List.mem_map_of_mem hother)⟩

theorem Leaves.agreeAt (h : Leaves d₀ item.names d) (hheads : Heads item items) {other : Item}
    (hother : other ∈ items) : AgreeAt other.names d d₀ := by
  obtain ⟨hapart, hapart'⟩ := hheads.apart other hother
  exact ⟨h.tree _ (hapart.not_touches hapart'),
    h.tree _ (hapart.not_touches_partOf hapart' item.names_ne_nil other.names_ne_nil)⟩

/-- The others leave the item in front as it is. -/
theorem Partway.agreeAt (h : Partway sha256 crc32 source d₁ items d) (hheads : Heads item items) :
    AgreeAt item.names d d₁ := by
  refine ⟨h.tree _ fun other hother => ?_, h.tree _ fun other hother => ?_⟩
  all_goals obtain ⟨hapart, hapart'⟩ := hheads.apart other hother
  · exact hapart'.not_touches hapart
  · exact hapart'.not_touches_partOf hapart other.names_ne_nil item.names_ne_nil

theorem Extractable.leaves (h : Leaves d₀ item.names d) (hheads : Heads item items) {other : Item}
    (hother : other ∈ items) (hitem : Extractable sha256 crc32 source d₀ other) :
    Extractable sha256 crc32 source d other := by
  have hagree := h.agreeAt hheads hother
  obtain ⟨hapart, hapart'⟩ := hheads.apart other hother
  refine ⟨⟨fun q hq bytes => ?_, hagree.2 ▸ hitem.clear.part, hagree.1 ▸ hitem.clear.here⟩,
    hitem.valid, fun hkept => hitem.accepts (kept_congr hagree.1 ▸ hkept)⟩
  by_cases habove : q <+: item.names.dropLast
  · rcases h.above q habove with heq | heq
    · exact heq ▸ hitem.clear.above q hq bytes
    · exact heq ▸ nofun
  · have htouches : ¬ Touches item.names q := by
      have hbelow := hq.trans (List.dropLast_prefix other.names)
      rintro (htouch | htouch | rfl)
      · exact habove htouch
      · exact hapart.part (htouch.trans hbelow)
      · exact hapart.path hbelow
    exact h.tree q htouches ▸ hitem.clear.above q hq bytes

theorem Partway.head (hitem : ItemPartway sha256 crc32 source d₀ item d)
    (h : Leaves d₀ item.names d) (hheads : Heads item items) :
    Partway sha256 crc32 source d₀ (item :: items) d where
  state := h.state
  tree q hq := h.tree q (hq item List.mem_cons_self)
  items := List.forall_mem_cons.mpr ⟨hitem, fun _ hother =>
    have hagree := h.agreeAt hheads hother
    .inl ⟨hagree.1, .inl hagree.2⟩⟩

theorem Partway.cons (hitem : ItemDone sha256 crc32 source d₀ item d₁ seen)
    (h : Partway sha256 crc32 source d₁ items d) (hheads : Heads item items) :
    Partway sha256 crc32 source d₀ (item :: items) d where
  state := h.state.trans hitem.leaves.state
  tree q hq := by
    obtain ⟨hhead, htail⟩ := List.forall_mem_cons.mp hq
    rw [h.tree q htail, hitem.leaves.tree q hhead]
  items := by
    refine List.forall_mem_cons.mpr ⟨?_, fun other hother => ?_⟩
    · exact hitem.partway.congr ⟨rfl, rfl⟩ (by
        obtain ⟨hhere, hpart⟩ := h.agreeAt hheads
        exact ⟨hhere.symm, hpart.symm⟩)
    · exact (h.items other hother).congr (hitem.leaves.agreeAt hheads hother) ⟨rfl, rfl⟩

end Steps

theorem extract_triple {items : List Item} (hapart : AllApart (items.map Item.names)) :
    Triple A (fun d => d = d₀) (collect (extractItem sha256 crc32 source) items)
      (fun seen d => Partway sha256 crc32 source d₀ items d ∧
        List.Forall₂ (SeenAs sha256 crc32 d) items seen)
      (fun d => Partway sha256 crc32 source d₀ items d ∧
        ((∀ item ∈ items, Extractable sha256 crc32 source d₀ item) → Fails A))
      (Partway sha256 crc32 source d₀ items) := by
  induction items generalizing d₀ with
  | nil => exact .pure fun d hd => ⟨hd ▸ ⟨rfl, fun _ _ => rfl, nofun⟩, .nil⟩
  | cons item items ih =>
    have hheads := hapart.heads
    refine .bind (extractItem_triple.conseq (fun _ h => h) (fun _ _ h => h)
      (fun d hd => ⟨.head hd.1.partway hd.1.leaves hheads, fun hall =>
        hd.2 (hall item List.mem_cons_self)⟩)
      fun d hd => .head hd.partway hd.leaves hheads) fun seen => ?_
    refine .of_states fun d₁ hdone => ?_
    refine .bind ((ih hheads.tail).conseq (fun _ h => h) (fun _ _ h => h)
      (fun d hd => ⟨.cons hdone hd.1 hheads, fun hall => hd.2 fun _ hother =>
        (hall _ (List.mem_cons_of_mem item hother)).leaves hdone.leaves hheads hother⟩)
      fun d hd => .cons hdone hd hheads) fun rest => .pure fun d hd =>
        ⟨.cons hdone hd.1 hheads, .cons ?_ hd.2⟩
    obtain ⟨bytes, hkept, hseen⟩ := hdone.seenAs
    exact ⟨bytes, (kept_congr (hd.1.agreeAt hheads).1).trans hkept, hseen⟩

/-! ## The stage before the extraction -/

variable (sha256 crc32) in
/-- What `preflight_space` finds out about an item. -/
def measured (d : StageDisk) (item : Item) : Item × Nat :=
  match kept sha256 crc32 d item with
  | some bytes => (item.record sha256 crc32 bytes, 0)
  | none => (item, item.size)

variable (sha256 crc32) in
/-- The bytes that are missing on the stage. -/
def missing (d : StageDisk) (items : List Item) : Nat :=
  (items.map (measured sha256 crc32 d)).foldl (fun sum m => sum + m.2) 0

theorem measure_triple : Triple A (fun d => d = d₀) (measure sha256 crc32 item)
    (fun m d => m = measured sha256 crc32 d₀ item ∧ d = d₀) (fun d => d = d₀ ∧ Fails A)
    fun d => d = d₀ := by
  refine .bind itemAlreadyStaged_triple fun seen => .pure fun d hd => ⟨?_, hd.1⟩
  unfold measured
  rw [hd.2]
  cases kept sha256 crc32 d₀ item <;> rfl

theorem preflightSpace_triple {humanBytes : Nat → CString} {safetyBytes free : Nat}
    {items : List Item} :
    Triple A (fun d => d = d₀) (preflightSpace sha256 crc32 humanBytes safetyBytes free items)
      (fun found d => d = d₀ ∧ found = items.map fun item => (measured sha256 crc32 d₀ item).1)
      (fun d => d = d₀ ∧ (missing sha256 crc32 d₀ items + safetyBytes ≤ free → Fails A))
      fun d => d = d₀ := by
  refine .bind ((Triple.collect fun item _ => measure_triple).conseq (fun _ h => h) (fun _ _ h => h)
    (fun d hd => ⟨hd.1, fun _ => hd.2⟩) fun _ h => h) fun found => ?_
  refine .of_pre (fun d hd => hd.1) fun hfound => ?_
  obtain rfl := eq_map_of_forall₂ hfound fun _ _ _ h => h
  refine .bind (Q := fun _ d => d = d₀) (.atomic (fun d hd => hd.2)
    (fun d cut hfault hd => ⟨hd.2, fun _ => ⟨d, cut, hfault⟩⟩) fun d cut _ hd => hd.2) fun _ => ?_
  split_ifs with hroom
  · exact .raise fun d hd => ⟨hd, fun hle => absurd hroom (Nat.not_lt.mpr hle)⟩
  · exact .pure fun d hd => ⟨hd, by rw [List.map_map]; rfl⟩

variable (sha256 crc32) in
/-- An item is as it was, or it has what was seen of it. -/
theorem measured_cases (d : StageDisk) (item : Item) :
    kept sha256 crc32 d item = none ∧ (measured sha256 crc32 d item).1 = item ∨
    ∃ bytes, kept sha256 crc32 d item = some bytes ∧
      (measured sha256 crc32 d item).1 = item.record sha256 crc32 bytes := by
  unfold measured
  cases hkept : kept sha256 crc32 d item with
  | none => exact .inl ⟨rfl, rfl⟩
  | some bytes => exact .inr ⟨bytes, rfl, rfl⟩

theorem measured_names (d : StageDisk) (item : Item) :
    (measured sha256 crc32 d item).1.names = item.names := by
  unfold measured
  split <;> rfl

/-- What was seen is accepted as what it was seen of. -/
theorem accepts_record {bytes : List UInt8} :
    (item.record sha256 crc32 bytes).Accepts sha256 crc32 bytes ↔ bytes.length = item.size := by
  simp [Item.Accepts, Item.record]

theorem Item.Accepts.of_record {bytes bytes' : List UInt8}
    (hseen : item.Accepts sha256 crc32 bytes)
    (h : (item.record sha256 crc32 bytes).Accepts sha256 crc32 bytes') :
    item.Accepts sha256 crc32 bytes' := by
  obtain ⟨-, hcrc, hsha⟩ := hseen
  obtain ⟨hsize, hcrc', hsha'⟩ := h
  refine ⟨hsize, hcrc.imp_right fun heq => ?_, hsha.imp_right fun heq => ?_⟩
  · exact heq.trans (hcrc'.resolve_left nofun)
  · exact heq.trans (hsha'.resolve_left nofun)

theorem kept_measured : kept sha256 crc32 d (measured sha256 crc32 d item).1 =
    kept sha256 crc32 d item := by
  obtain ⟨-, heq⟩ | ⟨bytes, hkept, heq⟩ := measured_cases sha256 crc32 d item
  · rw [heq]
  · obtain ⟨htree, haccepts⟩ := kept_eq_some.mp hkept
    rw [heq, hkept]
    exact kept_eq_some.mpr ⟨htree, accepts_record.mpr haccepts.1⟩

theorem ItemPartway.of_measured
    (h : ItemPartway sha256 crc32 source d₀ (measured sha256 crc32 d₀ item).1 d) :
    ItemPartway sha256 crc32 source d₀ item d := by
  unfold ItemPartway at h ⊢
  rw [kept_measured, measured_names] at h
  refine h.imp_right fun ⟨hkept, haccepts, hfile⟩ => ⟨hkept, ?_, hfile⟩
  obtain ⟨-, heq⟩ | ⟨bytes, hkept', -⟩ := measured_cases sha256 crc32 d₀ item
  · rwa [heq] at haccepts
  · exact absurd (hkept.symm.trans hkept') nofun

theorem SeenAs.of_measured {seen : Item}
    (h : SeenAs sha256 crc32 d (measured sha256 crc32 d₀ item).1 seen) :
    SeenAs sha256 crc32 d item seen := by
  obtain ⟨-, heq⟩ | ⟨bytes, hkept, heq⟩ := measured_cases sha256 crc32 d₀ item
  · exact heq ▸ h
  · obtain ⟨bytes', hkept', rfl⟩ := h
    rw [heq] at hkept' ⊢
    obtain ⟨htree, haccepts⟩ := kept_eq_some.mp hkept'
    exact ⟨bytes', kept_eq_some.mpr ⟨htree, (kept_eq_some.mp hkept).2.of_record haccepts⟩, rfl⟩

theorem Extractable.measured (h : Extractable sha256 crc32 source d item) :
    Extractable sha256 crc32 source d (measured sha256 crc32 d item).1 := by
  obtain ⟨-, heq⟩ | ⟨bytes, hkept, heq⟩ := measured_cases sha256 crc32 d item
  · rwa [heq]
  · refine ⟨by rw [measured_names]; exact h.clear, ?_, fun hnone => ?_⟩
    · rw [heq]
      exact h.valid
    · rw [kept_measured, hkept] at hnone
      cases hnone

/-- Measuring and extracting, seen from the items of the plan. -/
theorem preflight_extract_triple {humanBytes : Nat → CString} {safetyBytes free : Nat}
    {items : List Item} (hapart : AllApart (items.map Item.names)) :
    Triple A (fun d => d = d₀)
      (preflightSpace sha256 crc32 humanBytes safetyBytes free items >>= fun found =>
        collect (extractItem sha256 crc32 source) found)
      (fun seen d => Partway sha256 crc32 source d₀ items d ∧
        List.Forall₂ (SeenAs sha256 crc32 d) items seen)
      (fun d => Partway sha256 crc32 source d₀ items d ∧
        (missing sha256 crc32 d₀ items + safetyBytes ≤ free ∧
          (∀ item ∈ items, Extractable sha256 crc32 source d₀ item) → Fails A))
      (Partway sha256 crc32 source d₀ items) := by
  have hnone : Partway sha256 crc32 source d₀ items d₀ :=
    ⟨rfl, fun _ _ => rfl, fun item _ => .inl ⟨rfl, .inl rfl⟩⟩
  refine .bind (preflightSpace_triple.conseq (fun _ h => h) (fun _ _ h => h)
    (fun d hd => ⟨hd.1 ▸ hnone, fun hroom => hd.2 hroom.1⟩) fun d hd => hd ▸ hnone) fun found => ?_
  refine .of_pre (fun d hd => hd.2) fun hfound => ?_
  subst hfound
  have hnames : (items.map fun item => (measured sha256 crc32 d₀ item).1).map Item.names =
      items.map Item.names := by
    rw [List.map_map]
    exact List.map_congr_left fun item _ => measured_names d₀ item
  have hpartway : ∀ d, Partway sha256 crc32 source d₀
      (items.map fun item => (measured sha256 crc32 d₀ item).1) d →
      Partway sha256 crc32 source d₀ items d := fun d hd =>
    { state := hd.state
      tree := fun q hq => hd.tree q (by
        intro m hm
        obtain ⟨item, hitem, rfl⟩ := List.mem_map.mp hm
        rw [measured_names]
        exact hq item hitem)
      items := fun item hitem => (hd.items _ (List.mem_map_of_mem hitem)).of_measured }
  refine (extract_triple (hnames ▸ hapart)).conseq (fun d hd => hd.1)
    (fun seen d hd => ⟨hpartway d hd.1, ?_⟩) (fun d hd => ⟨hpartway d hd.1, fun hall => hd.2 ?_⟩)
    hpartway
  · exact (List.forall₂_map_left_iff.mp hd.2).imp fun item seen h => h.of_measured
  · intro m hm
    obtain ⟨item, hitem, rfl⟩ := List.mem_map.mp hm
    exact (hall.2 item hitem).measured

end Items

end NfsmwRuntime.Install
