import Mathlib.Data.List.Forall2
import NfsmwRuntime.Obb.Index

/-!
# Fake JNI objects

The bridge hands the guest pointers to `fake_object` structures: a few static ones, and
cells that `new_object` allocates and nobody frees. Two runs that start from the same
heap return the same thing if they return the same old object, or new ones that look the
same as far as pointers lead.

Only the fields that the object methods read or set are kept. C's floats are a
parameter: all that matters is that a float survives its promotion to double.
-/

namespace NfsmwRuntime.Jni

open Library

inductive FakeKind where
  | generic | activity | class_ | string | objectArray | byteArray | intArray | longArray
  | file | runLoop | displayMetrics | paint | fontMetrics | bitmapGraphics | bitmap
  | networkStatus | mogaKeyEvent | mogaStateEvent | mogaMotionEvent | directBuffer
  deriving DecidableEq, Repr

inductive StaticObject where
  | activity | activityClass | genericClass | runLoop | displayMetrics | mogaListener
  | fmodAudioDevice | surfaceView
  deriving DecidableEq, Repr

/-- A non-NULL `struct fake_object *`. -/
inductive Ref where
  | static (object : StaticObject)
  | cell (index : Nat)
  deriving DecidableEq, Repr

/-- `float` and `double`: promotion is exact, so converting back gives the float again.
A NaN stays a NaN and compares false with 0. -/
structure CFloat (φ δ : Type) where
  zero : φ
  sixteen : φ
  positive : φ → Bool
  promote : φ → δ
  demote : δ → φ
  demote_promote : ∀ x, positive x = true → demote (promote x) = x
  positive_promote : ∀ x, positive (demote (promote x)) = positive x

structure FakeObject (φ : Type) where
  kind : FakeKind
  text : Option CString
  length : Nat
  elements : Option (List (Option Ref))
  textSize : φ

structure Heap (φ : Type) where
  static : StaticObject → FakeObject φ
  cells : List (FakeObject φ)

variable {φ δ : Type}

namespace Heap

def get (h : Heap φ) : Ref → Option (FakeObject φ)
  | .static object => some (h.static object)
  | .cell index => h.cells[index]?

/-- `new_object` with the fields that its caller sets next. -/
def alloc (h : Heap φ) (object : FakeObject φ) : Heap φ × Ref :=
  ({ h with cells := h.cells ++ [object] }, .cell h.cells.length)

def setElement (h : Heap φ) (array : Nat) (index : Nat) (element : Option Ref) : Heap φ :=
  { h with
    cells := h.cells.modify array fun object =>
      { object with elements := object.elements.map (·.set index element) } }

end Heap

/-- `as_object` passes a pointer to a fake object on; NULL and pointers to anything else
become NULL. -/
def asObject (h : Heap φ) (value : Option Ref) : Option (FakeObject φ) := value.bind h.get

def stringValue (h : Heap φ) (value : Option Ref) : CString :=
  ((asObject h value).bind FakeObject.text).getD []

variable (c : CFloat φ δ)

def newObject (kind : FakeKind) (text : Option CString) (length : Nat) : FakeObject φ where
  kind := kind
  text := text
  length := length
  elements := none
  textSize := c.zero

def newString (text : CString) : FakeObject φ := newObject c .string (some text) text.length

def newPaint (textSize : φ) : FakeObject φ :=
  { newObject c .paint none 0 with
    textSize := if c.positive textSize then textSize else c.sixteen }

/-- The String array that a directory listing becomes: each child up to its slash. At
least one slot is allocated. -/
def newChildArray (children : List CString) (h : Heap φ) : Heap φ × Ref :=
  let array := h.cells.length
  let (h, result) := h.alloc
    { newObject c .objectArray none children.length with
      elements := some (List.replicate (max children.length 1) none) }
  let h := children.zipIdx.foldl (fun h (child, index) =>
    let (h, string) := h.alloc (newString c (Obb.component child))
    h.setElement array index (some string)) h
  (h, result)

/-! ## Looking the same -/

/-- Allocated since the heap had `old` cells. -/
def Fresh (old : Nat) (h : Heap φ) (r : Ref) : Prop :=
  ∃ index, r = .cell index ∧ old ≤ index ∧ index < h.cells.length

/-- Two objects with equal contents, whose elements are related. -/
structure FakeObject.Matches (R : Ref → Ref → Prop) (a b : FakeObject φ) : Prop where
  kind : a.kind = b.kind
  text : a.text = b.text
  length : a.length = b.length
  textSize : a.textSize = b.textSize
  elements : Option.Rel (List.Forall₂ (Option.Rel R)) a.elements b.elements

/-- Related pointers are the same old one, or new ones to matching objects. -/
def Renaming (old : Nat) (h₁ h₂ : Heap φ) (R : Ref → Ref → Prop) : Prop :=
  ∀ r₁ r₂, R r₁ r₂ →
    (r₁ = r₂ ∧ ¬ Fresh old h₁ r₁ ∧ ¬ Fresh old h₂ r₂) ∨
    (Fresh old h₁ r₁ ∧ Fresh old h₂ r₂ ∧
      ∃ a b, h₁.get r₁ = some a ∧ h₂.get r₂ = some b ∧ a.Matches R b)

/-- Both NULL, the same old object, or new objects that look the same. -/
def Alike (old : Nat) (h₁ h₂ : Heap φ) (v₁ v₂ : Option Ref) : Prop :=
  ∃ R, Renaming old h₁ h₂ R ∧ Option.Rel R v₁ v₂

theorem FakeObject.matches_refl (a : FakeObject φ) : a.Matches Eq a := by
  refine ⟨rfl, rfl, rfl, rfl, ?_⟩
  have hslot : ∀ r : Option Ref, Option.Rel Eq r r := fun r => by
    cases r with
    | none => exact .none
    | some r => exact .some rfl
  cases a.elements with
  | none => exact .none
  | some elements => exact .some (List.forall₂_same.mpr fun r _ => hslot r)

theorem Alike.refl (old : Nat) (h : Heap φ) (v : Option Ref) : Alike old h h v v := by
  refine ⟨Eq, ?_, ?_⟩
  · rintro r _ rfl
    by_cases hfresh : Fresh old h r
    · obtain ⟨index, rfl, -, hlt⟩ := id hfresh
      exact .inr ⟨hfresh, hfresh, _, _, List.getElem?_eq_getElem hlt,
        List.getElem?_eq_getElem hlt, (h.cells[index]).matches_refl⟩
    · exact .inl ⟨rfl, hfresh, hfresh⟩
  · cases v with
    | none => exact .none
    | some r => exact .some rfl

/-- Two new objects that look the same are of one kind. -/
theorem Alike.kind_eq {h : Heap φ} {a b : FakeObject φ}
    (halike : Alike h.cells.length (h.alloc a).1 (h.alloc b).1 (some (h.alloc a).2)
      (some (h.alloc b).2)) : a.kind = b.kind := by
  have hfresh : ∀ o : FakeObject φ, Fresh h.cells.length (h.alloc o).1 (h.alloc o).2 :=
    fun o => ⟨h.cells.length, rfl, le_rfl, by simp [Heap.alloc]⟩
  have hget : ∀ o : FakeObject φ, (h.alloc o).1.get (h.alloc o).2 = some o :=
    fun o => by simp [Heap.alloc, Heap.get]
  obtain ⟨R, hR, hrel⟩ := halike
  cases hrel with
  | some hr =>
    rcases hR _ _ hr with ⟨-, hold, -⟩ | ⟨-, -, a', b', ha, hb, hmatch⟩
    · exact absurd (hfresh a) hold
    · obtain rfl := Option.some.inj ((hget a).symm.trans ha)
      obtain rfl := Option.some.inj ((hget b).symm.trans hb)
      exact hmatch.kind

end NfsmwRuntime.Jni
