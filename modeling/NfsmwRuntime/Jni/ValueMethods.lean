import Mathlib.Logic.Function.Basic
import NfsmwRuntime.Jni.ObjectMethods

/-!
# Int, Float and Void methods, and constructors

Each of these families has a dispatch on a `va_list`, which the variadic and the `va_list`
form share, and a second one on a `jvalue` array. What the dispatches read is decided by the
method's name alone, so that a method's declaration matters: the guest passes the arguments
that the method's signature asks for.

A read or write outside an object's memory, an argument that is not there and an overflow of
`int` are undefined (`none`).
-/

namespace NfsmwRuntime.Jni

open Library Obb

/-- The rest of `float`: comparisons, arithmetic, conversions and the bits in memory. A float
is what it was after it has been promoted; NaNs are not told apart. -/
structure FloatOps (φ δ : Type) extends CFloat φ δ where
  one : φ
  seven : φ
  fiftySix : φ
  lt : φ → φ → Bool
  le : φ → φ → Bool
  div : φ → φ → φ
  mul : φ → φ → φ
  toInt : φ → Int32
  ofInt : Int → φ
  ofBits : UInt32 → φ
  lowWord : δ → UInt32
  demote_promote_exact : ∀ x, demote (promote x) = x

/-- The fields of `struct fake_object` that the object methods do not touch. -/
structure ObjectData where
  ints : Option (List Int32)
  bytes : Option (List UInt8)
  width : Int32
  height : Int32
  stride : UInt32

def ObjectData.blank : ObjectData := ⟨none, none, 0, 0, 0⟩

/-- The heap with all fields, and the OBB index. -/
structure ValueWorld (φ : Type) extends World φ where
  data : Ref → ObjectData

/-- What the environment settles: the score and the size of the display. -/
structure MethodSettings (φ : Type) where
  performanceScore : φ
  displayWidth : Int32
  displayHeight : Int32

variable {φ δ : Type} (c : FloatOps φ δ) (settings : MethodSettings φ)

def vaInt : List (VaArg δ) → Option (Int32 × List (VaArg δ))
  | .int value :: rest => some (value, rest)
  | _ => none

def valueInt (values : List (JValue φ δ)) (index : Nat) : Option Int32 :=
  match values[index]? with
  | some (.int value) => some value
  | _ => none

/-- `float_value` of a slot, which may hold something else. The bits of a pointer are not known. -/
def slotFloat (values : List (JValue φ δ)) (index : Nat) : Option φ :=
  match values[index]? with
  | some (.float value) => some value
  | some (.double value) => some (c.ofBits (c.lowWord value))
  | some (.int value) => some (c.ofBits value.toUInt32)
  | some (.long value) => some (c.ofBits value.toUInt64.toUInt32)
  | _ => none

/-- Arithmetic in C's `int`. -/
def cInt (x : Int) : Option Int := if -2 ^ 31 ≤ x ∧ x < 2 ^ 31 then some x else none

namespace ValueWorld

variable (w : ValueWorld φ)

/-- A pointer that `as_object` passes on, with the object's fields. -/
def object (value : Option Ref) : Option (FakeObject φ × ObjectData) :=
  value.bind fun r => (w.heap.get r).map fun object => (object, w.data r)

def setTextSize (r : Ref) (textSize : φ) : ValueWorld φ :=
  match r with
  | .static object =>
    { w with
      heap := { w.heap with
        static := Function.update w.heap.static object
          { w.heap.static object with textSize := textSize } } }
  | .cell index =>
    { w with
      heap := { w.heap with
        cells := w.heap.cells.modify index fun object => { object with textSize := textSize } } }

def setBytes (r : Ref) (bytes : List UInt8) : ValueWorld φ :=
  { w with data := Function.update w.data r { w.data r with bytes := some bytes } }

/-- `new_object`, with the fields that its caller sets next. -/
def alloc (object : FakeObject φ) (data : ObjectData) : ValueWorld φ × Ref :=
  let (heap, r) := w.heap.alloc object
  ({ w with heap, data := Function.update w.data r data }, r)

end ValueWorld

/-! ## Constructors -/

variable (w : ValueWorld φ)

/-- Dimensions that are not between 1 and 4096 become 1 by 1. -/
def newBitmapGraphics (width height : Int32) : ValueWorld φ × Option Ref :=
  let (width, height) : Int32 × Int32 :=
    if width ≤ 0 ∨ height ≤ 0 ∨ width > 4096 ∨ height > 4096 then (1, 1) else (width, height)
  let stride := width.toInt.toNat * 4
  let byteCount := stride * height.toInt.toNat
  let (w, bitmap) := w.alloc (newObject c.toCFloat .bitmap none byteCount)
    { ints := none, bytes := some (List.replicate (if byteCount ≠ 0 then byteCount else 4) 0)
      width, height, stride := .ofNat stride }
  let (w, graphics) := w.alloc
    { newObject c.toCFloat .bitmapGraphics none 1 with elements := some [some bitmap] }
    { ints := none, bytes := none, width, height, stride := .ofNat stride }
  (w, some graphics)

def newGeneric : ValueWorld φ × Option Ref :=
  let (w, r) := w.alloc (newObject c.toCFloat .generic none 0) .blank
  (w, some r)

/-- `text != NULL && strcmp(text, "com/ea/ironmonkey/BitmapGraphics") == 0` -/
def isBitmapGraphicsClass (classReference : Option Ref) : Bool :=
  ((asObject w.heap classReference).bind FakeObject.text) =
    some (cstr "com/ea/ironmonkey/BitmapGraphics")

def constructObject (classReference : Option Ref) (method : Option FakeMethod)
    (arguments : List (VaArg δ)) : Option (ValueWorld φ × Option Ref) :=
  if isBitmapGraphicsClass w classReference ∧
      method.map FakeMethod.name = some (cstr "<init>") ∧
      method.map FakeMethod.signature = some (cstr "(II)V") then do
    let (width, arguments) ← vaInt arguments
    let (height, _) ← vaInt arguments
    return newBitmapGraphics c w width height
  else some (newGeneric c w)

def jniNewObject := constructObject c w

def jniNewObjectV := constructObject c w

def jniNewObjectA (classReference : Option Ref) (method : Option FakeMethod)
    (arguments : Option (List (JValue φ δ))) : Option (ValueWorld φ × Option Ref) :=
  if isBitmapGraphicsClass w classReference ∧
      method.map FakeMethod.name = some (cstr "<init>") ∧
      method.map FakeMethod.signature = some (cstr "(II)V") ∧ arguments.isSome then do
    let width ← valueInt (arguments.getD []) 0
    let height ← valueInt (arguments.getD []) 1
    return newBitmapGraphics c w width height
  else some (newGeneric c w)

/-! ## Int methods -/

/-- `(int)nfsmw_obb_asset_size(string_value(value))` -/
def assetSizeOf (value : Option Ref) : Int32 :=
  .ofInt (nfsmwObbAssetSize (some (stringValue w.heap value)) w.index)

def dispatchIntV (receiver : Option Ref) (method : Option FakeMethod)
    (arguments : List (VaArg δ)) : Option Int32 :=
  let name := (method.map FakeMethod.name).getD []
  let object := w.object receiver
  let kind : Option FakeKind := object.map (·.1.kind)
  let ints := object.bind (·.2.ints)
  if ints.isSome ∧ name = cstr "getAction" then (ints.getD [])[0]?
  else if ints.isSome ∧ name = cstr "getKeyCode" ∧ kind = some .mogaKeyEvent then
    (ints.getD [])[1]?
  else if ints.isSome ∧ name = cstr "getState" ∧ kind = some .mogaStateEvent then
    (ints.getD [])[1]?
  else if ints.isSome ∧ name = cstr "getControllerId" then (ints.getD [])[2]?
  else if name = cstr "ordinal" ∧ kind = some .networkStatus then some 3
  else if name = cstr "getAssetSize" then do
    let (path, _) ← vaObject arguments
    return assetSizeOf w path
  else if name = cstr "getTotalMemory" then some 768
  else if name = cstr "getPerformanceScore" then some (c.toInt settings.performanceScore)
  else if name = cstr "getWidth" then some settings.displayWidth
  else if name = cstr "getHeight" then some settings.displayHeight
  else if name = cstr "getPointerCount" then some 1
  else some 0

def jniCallIntMethod := dispatchIntV c settings w

def jniCallIntMethodV := dispatchIntV c settings w

def jniCallIntMethodA (receiver : Option Ref) (method : Option FakeMethod)
    (arguments : Option (List (JValue φ δ))) : Option Int32 :=
  let name := (method.map FakeMethod.name).getD []
  let object := w.object receiver
  let kind : Option FakeKind := object.map (·.1.kind)
  let ints := object.bind (·.2.ints)
  if ints.isSome ∧ name = cstr "getAction" then (ints.getD [])[0]?
  else if ints.isSome ∧ name = cstr "getKeyCode" ∧ kind = some .mogaKeyEvent then
    (ints.getD [])[1]?
  else if ints.isSome ∧ name = cstr "getState" ∧ kind = some .mogaStateEvent then
    (ints.getD [])[1]?
  else if ints.isSome ∧ name = cstr "getControllerId" then (ints.getD [])[2]?
  else if name = cstr "ordinal" ∧ kind = some .networkStatus then some 3
  else if name = cstr "getAssetSize" ∧ arguments.isSome then do
    let path ← valueObject (arguments.getD []) 0
    return assetSizeOf w path
  else if name = cstr "getTotalMemory" then some 768
  else if name = cstr "getPerformanceScore" then some (c.toInt settings.performanceScore)
  else if name = cstr "getWidth" then some settings.displayWidth
  else if name = cstr "getHeight" then some settings.displayHeight
  else if name = cstr "getPointerCount" then some 1
  else some 0

/-! ## Float methods -/

def mogaAxisIndex (axis : Int32) : Option Nat :=
  if axis = 0 then some 0
  else if axis = 1 then some 1
  else if axis = 11 then some 2
  else if axis = 14 then some 3
  else if axis = 17 then some 4
  else if axis = 18 then some 5
  else none

/-- An element of a float array in memory. -/
def floatAt (bytes : List UInt8) (index : Nat) : Option φ :=
  if 4 * index + 4 ≤ bytes.length then some (c.ofBits (readU32 (bytes.drop (4 * index)))) else none

def mogaAxisValue (object : Option (FakeObject φ × ObjectData)) (axis : Int32) : Option φ :=
  match object with
  | none => some c.zero
  | some (object, data) =>
    match data.bytes with
    | none => some c.zero
    | some bytes =>
      if object.kind ≠ .mogaMotionEvent then some c.zero
      else
        match mogaAxisIndex axis with
        | none => some c.zero
        | some index => floatAt c bytes index

def fallbackFontScale (textSize : φ) : Int :=
  let textSize := if c.positive textSize then textSize else c.sixteen
  if c.le c.fiftySix textSize then 8
  else if c.lt textSize c.seven then 1
  else (c.toInt (c.div textSize c.seven)).toInt

def fallbackTextWidth (text : CString) (textSize : φ) : φ :=
  c.mul (c.ofInt text.length) (c.ofInt (6 * fallbackFontScale c textSize))

/-- The text size of an object, or 16 if it has none. -/
def textSizeOf (object : Option (FakeObject φ × ObjectData)) : φ :=
  match object with
  | some (object, _) => if c.positive object.textSize then object.textSize else c.sixteen
  | none => c.sixteen

def dispatchFloat (receiver : Option Ref) (method : Option FakeMethod)
    (arguments : List (VaArg δ)) : Option φ :=
  let name := (method.map FakeMethod.name).getD []
  let object := w.object receiver
  let motion : Bool := object.map (·.1.kind) = some FakeKind.mogaMotionEvent
  if motion ∧ (name = cstr "getX" ∨ name = cstr "getRawX") then mogaAxisValue c object 0
  else if motion ∧ (name = cstr "getY" ∨ name = cstr "getRawY") then mogaAxisValue c object 1
  else if motion ∧ (name = cstr "getXPrecision" ∨ name = cstr "getYPrecision") then some c.one
  else if name = cstr "getAxisValue" ∧ motion then do
    let (axis, _) ← vaInt arguments
    mogaAxisValue c object axis
  else if name = cstr "getPerformanceScore" then some settings.performanceScore
  else if name = cstr "getTextSize" then some (textSizeOf c object)
  else if name = cstr "measureText" then do
    let (text, _) ← vaObject arguments
    return fallbackTextWidth c (stringValue w.heap text) (textSizeOf c object)
  else some c.zero

def jniCallFloatMethod := dispatchFloat c settings w

def jniCallFloatMethodV := dispatchFloat c settings w

def jniCallFloatMethodA (receiver : Option Ref) (method : Option FakeMethod)
    (arguments : Option (List (JValue φ δ))) : Option φ :=
  let name := (method.map FakeMethod.name).getD []
  let object := w.object receiver
  let motion : Bool := object.map (·.1.kind) = some FakeKind.mogaMotionEvent
  if name = cstr "getPerformanceScore" then some settings.performanceScore
  else if motion ∧ (name = cstr "getX" ∨ name = cstr "getRawX") then mogaAxisValue c object 0
  else if motion ∧ (name = cstr "getY" ∨ name = cstr "getRawY") then mogaAxisValue c object 1
  else if motion ∧ (name = cstr "getXPrecision" ∨ name = cstr "getYPrecision") then some c.one
  else if name = cstr "getAxisValue" ∧ motion ∧ arguments.isSome then do
    let axis ← valueInt (arguments.getD []) 0
    mogaAxisValue c object axis
  else if name = cstr "getTextSize" then some (textSizeOf c object)
  else if name = cstr "measureText" ∧ arguments.isSome then do
    let text ← valueObject (arguments.getD []) 0
    return fallbackTextWidth c (stringValue w.heap text) (textSizeOf c object)
  else some c.zero

/-! ## Void methods -/

def glyphs : List (List UInt8) :=
  [[14, 17, 17, 31, 17, 17, 17], [30, 17, 17, 30, 17, 17, 30],
    [14, 17, 16, 16, 16, 17, 14], [30, 17, 17, 17, 17, 17, 30],
    [31, 16, 16, 30, 16, 16, 31], [31, 16, 16, 30, 16, 16, 16],
    [14, 17, 16, 23, 17, 17, 15], [17, 17, 17, 31, 17, 17, 17],
    [14, 4, 4, 4, 4, 4, 14], [7, 2, 2, 2, 18, 18, 12],
    [17, 18, 20, 24, 20, 18, 17], [16, 16, 16, 16, 16, 16, 31],
    [17, 27, 21, 21, 17, 17, 17], [17, 25, 21, 19, 17, 17, 17],
    [14, 17, 17, 17, 17, 17, 14], [30, 17, 17, 30, 16, 16, 16],
    [14, 17, 17, 17, 21, 18, 13], [30, 17, 17, 30, 20, 18, 17],
    [15, 16, 16, 14, 1, 1, 30], [31, 4, 4, 4, 4, 4, 4],
    [17, 17, 17, 17, 17, 17, 14], [17, 17, 17, 17, 17, 10, 4],
    [17, 17, 17, 21, 21, 21, 10], [17, 17, 10, 4, 10, 17, 17],
    [17, 17, 10, 4, 4, 4, 4], [31, 1, 2, 4, 8, 16, 31],
    [14, 17, 19, 21, 25, 17, 14], [4, 12, 4, 4, 4, 4, 14],
    [14, 17, 1, 2, 4, 8, 31], [30, 1, 1, 14, 1, 1, 30],
    [2, 6, 10, 18, 31, 2, 2], [31, 16, 16, 30, 1, 1, 30],
    [14, 16, 16, 30, 17, 17, 14], [31, 1, 2, 4, 8, 8, 8],
    [14, 17, 17, 14, 17, 17, 14], [14, 17, 17, 15, 1, 1, 14]]

/-- The five pixels of one of the seven rows of a character. -/
def glyphRow (character : UInt8) (row : Nat) : UInt8 :=
  let character := if 97 ≤ character ∧ character ≤ 122 then character - 97 + 65 else character
  if 65 ≤ character ∧ character ≤ 90 then
    (glyphs.getD (character - 65).toNat []).getD row 0
  else if 48 ≤ character ∧ character ≤ 57 then
    (glyphs.getD (26 + (character - 48).toNat) []).getD row 0
  else if character = 45 then if row = 3 then 31 else 0
  else if character = 95 then if row = 6 then 31 else 0
  else if character = 46 then if row = 6 then 4 else 0
  else if character = 58 then if row = 2 ∨ row = 5 then 4 else 0
  else if character = 47 then 1 <<< (UInt8.ofNat (4 - row))
  else if character = 32 then 0
  else if row = 0 ∨ row = 6 then 31 else 17

/-- Make a pixel white that is on the bitmap. -/
def plot (bitmap : ObjectData) (x y : Int) (bytes : List UInt8) : Option (List UInt8) :=
  if x < 0 ∨ y < 0 ∨ bitmap.width.toInt ≤ x ∨ bitmap.height.toInt ≤ y then some bytes
  else
    let offset := y.toNat * bitmap.stride.toNat + x.toNat * 4
    if offset + 4 ≤ bytes.length then
      some (bytes.take offset ++ [255, 255, 255, 255] ++ bytes.drop (offset + 4))
    else none

/-- One bit of a glyph, as a square of `scale` by `scale` pixels. -/
def drawBit (bitmap : ObjectData) (scale pixelX pixelY : Int) (bytes : List UInt8) :
    Option (List UInt8) :=
  (List.range scale.toNat).foldlM (fun bytes innerY =>
    (List.range scale.toNat).foldlM (fun bytes innerX => do
      let x ← cInt (pixelX + innerX)
      let y ← cInt (pixelY + innerY)
      plot bitmap x y bytes) bytes) bytes

def drawCharacter (bitmap : ObjectData) (scale cursorX baselineY : Int) (character : UInt8)
    (bytes : List UInt8) : Option (List UInt8) :=
  (List.range 7).foldlM (fun bytes row =>
    (List.range 5).foldlM (fun bytes column => do
      if glyphRow character row &&& (1 <<< UInt8.ofNat (4 - column)) = 0 then return bytes
      let pixelX ← cInt (cursorX + column * scale)
      let top ← cInt (baselineY - 7 * scale)
      let pixelY ← cInt (top + row * scale)
      drawBit bitmap scale pixelX pixelY bytes) bytes) bytes

/-- The bitmap's bytes after the characters from `cursorX` on. -/
def drawCharacters (bitmap : ObjectData) (scale baselineY : Int) :
    CString → Int → List UInt8 → Option (List UInt8)
  | [], _, bytes => some bytes
  | character :: text, cursorX, bytes => do
    let bytes ← drawCharacter bitmap scale cursorX baselineY character bytes
    let cursorX ← cInt (cursorX + 6 * scale)
    drawCharacters bitmap scale baselineY text cursorX bytes

/-- A bitmap that a graphics object draws on. -/
def drawnBitmap (graphics : Option (FakeObject φ × ObjectData)) : Option Ref :=
  match graphics with
  | some (graphics, _) => (graphicsBitmap (some graphics)).join
  | none => none

def drawText (graphics paint : Option (FakeObject φ × ObjectData)) (text : CString)
    (originX baselineY : Int32) : Option (ValueWorld φ) :=
  match drawnBitmap graphics with
  | none => some w
  | some r =>
    match w.object (some r) with
    | none => some w
    | some (bitmap, data) =>
      match data.bytes with
      | none => some w
      | some bytes =>
        if bitmap.kind ≠ .bitmap then some w
        else
          let scale := fallbackFontScale c (match paint with
            | some (paint, _) => paint.textSize
            | none => c.sixteen)
          (drawCharacters data scale baselineY.toInt text originX.toInt bytes).map (w.setBytes r)

/-- `clear`: `memset` over the bitmap's length. -/
def clearBitmap (graphics : Option (FakeObject φ × ObjectData)) : Option (ValueWorld φ) :=
  match drawnBitmap graphics with
  | none => some w
  | some r =>
    match w.object (some r) with
    | none => some w
    | some (bitmap, data) =>
      match data.bytes with
      | none => some w
      | some bytes =>
        if bitmap.length ≤ bytes.length then
          some (w.setBytes r (List.replicate bitmap.length 0 ++ bytes.drop bitmap.length))
        else none

def dispatchVoid (receiver : Option Ref) (method : Option FakeMethod)
    (arguments : List (VaArg δ)) : Option (ValueWorld φ) :=
  let name := (method.map FakeMethod.name).getD []
  let object := w.object receiver
  if name = cstr "setTextSize" ∧ object.isSome then do
    let (textSize, _) ← vaDouble arguments
    let r ← receiver
    return w.setTextSize r (c.demote textSize)
  else if name = cstr "clear" ∧ (graphicsBitmap (object.map Prod.fst)).isSome then
    clearBitmap w object
  else if name = cstr "drawString" then do
    let (paint, arguments) ← vaObject arguments
    let (text, arguments) ← vaObject arguments
    let (x, arguments) ← vaInt arguments
    let (y, _) ← vaInt arguments
    drawText c w object (w.object paint) (stringValue w.heap text) x y
  else some w

def jniCallVoidMethod := dispatchVoid c w

def jniCallVoidMethodV := dispatchVoid c w

def jniCallVoidMethodA (receiver : Option Ref) (method : Option FakeMethod)
    (arguments : Option (List (JValue φ δ))) : Option (ValueWorld φ) :=
  let name := (method.map FakeMethod.name).getD []
  let object := w.object receiver
  if name = cstr "setTextSize" ∧ object.isSome ∧ arguments.isSome then do
    let textSize ← slotFloat c (arguments.getD []) 0
    let r ← receiver
    return w.setTextSize r textSize
  else if name = cstr "clear" ∧ (graphicsBitmap (object.map Prod.fst)).isSome then
    clearBitmap w object
  else if name = cstr "drawString" ∧ arguments.isSome then do
    let values := arguments.getD []
    let paint ← valueObject values 0
    let text ← valueObject values 1
    let x ← valueInt values 2
    let y ← valueInt values 3
    drawText c w object (w.object paint) (stringValue w.heap text) x y
  else some w

/-! ## Arguments of a signature -/

inductive JavaType where
  | object | int | long | float | double
  deriving DecidableEq, Repr

def JValue.type : JValue φ δ → JavaType
  | .object _ => .object
  | .int _ => .int
  | .long _ => .long
  | .float _ => .float
  | .double _ => .double

/-- The type that a letter of a signature stands for. -/
def primitiveType (letter : UInt8) : Option JavaType :=
  if letter ∈ cstr "ZBCSI" then some .int
  else if letter ∈ cstr "J" then some .long
  else if letter ∈ cstr "F" then some .float
  else if letter ∈ cstr "D" then some .double
  else none

/-- What of a parameter has been read. -/
inductive Reading where
  | nothing | brackets | className

def parametersFrom : Reading → CString → Option (List JavaType)
  | _, [] => none
  | .className, letter :: rest =>
    if letter ∈ cstr ";" then (parametersFrom .nothing rest).map (.object :: ·)
    else parametersFrom .className rest
  | .brackets, letter :: rest =>
    if letter ∈ cstr "[" then parametersFrom .brackets rest
    else if letter ∈ cstr "L" then parametersFrom .className rest
    else
      (primitiveType letter).bind fun _ => (parametersFrom .nothing rest).map (.object :: ·)
  | .nothing, letter :: rest =>
    if letter ∈ cstr ")" then some []
    else if letter ∈ cstr "[" then parametersFrom .brackets rest
    else if letter ∈ cstr "L" then parametersFrom .className rest
    else (primitiveType letter).bind fun type => (parametersFrom .nothing rest).map (type :: ·)

/-- The parameter types of a JNI method signature. -/
def parameterTypes : CString → Option (List JavaType)
  | [] => none
  | letter :: rest => if letter ∈ cstr "(" then parametersFrom .nothing rest else none

/-- The parameters of the Java methods whose arguments a dispatch reads. -/
def javaParameters : List (String × List JavaType) :=
  [("getAssetSize", [.object]), ("getAxisValue", [.int]), ("measureText", [.object]),
    ("setTextSize", [.float]), ("drawString", [.object, .object, .int, .int])]

/-- A method under one of these names has the parameters of the Java method. -/
def Declared (method : FakeMethod) : Prop :=
  ∀ entry ∈ javaParameters, method.name = cstr entry.1 →
    parameterTypes method.signature = some entry.2

/-- The arguments are of the types that the signature has. -/
def ArgumentsOf (signature : CString) (arguments : List (JValue φ δ)) : Prop :=
  parameterTypes signature = some (arguments.map JValue.type)

instance (method : FakeMethod) : Decidable (Declared method) :=
  inferInstanceAs (Decidable (∀ entry ∈ javaParameters, method.name = cstr entry.1 →
    parameterTypes method.signature = some entry.2))

instance (signature : CString) (arguments : List (JValue φ δ)) :
    Decidable (ArgumentsOf signature arguments) :=
  inferInstanceAs (Decidable (parameterTypes signature = some (arguments.map JValue.type)))

variable {c settings w} {receiver : Option Ref} {method : FakeMethod}
  {arguments : List (JValue φ δ)}

theorem argumentsOf_declared {name : String} {types : List JavaType}
    (hentry : (name, types) ∈ javaParameters) (hdeclared : Declared method)
    (harguments : ArgumentsOf method.signature arguments) (hname : method.name = cstr name) :
    arguments.map JValue.type = types :=
  Option.some.inj (harguments.symm.trans (hdeclared (name, types) hentry hname))

theorem eq_object_of_type (h : arguments.map JValue.type = [.object]) :
    ∃ value, arguments = [.object value] := by
  match arguments, h with
  | [.object value], _ => exact ⟨value, rfl⟩

theorem eq_int_of_type (h : arguments.map JValue.type = [.int]) :
    ∃ value, arguments = [.int value] := by
  match arguments, h with
  | [.int value], _ => exact ⟨value, rfl⟩

theorem eq_float_of_type (h : arguments.map JValue.type = [.float]) :
    ∃ value, arguments = [.float value] := by
  match arguments, h with
  | [.float value], _ => exact ⟨value, rfl⟩

theorem eq_ints_of_type (h : arguments.map JValue.type = [.int, .int]) :
    ∃ width height, arguments = [.int width, .int height] := by
  match arguments, h with
  | [.int width, .int height], _ => exact ⟨width, height, rfl⟩

theorem eq_drawString_of_type (h : arguments.map JValue.type = [.object, .object, .int, .int]) :
    ∃ paint text x y, arguments = [.object paint, .object text, .int x, .int y] := by
  match arguments, h with
  | [.object paint, .object text, .int x, .int y], _ => exact ⟨paint, text, x, y, rfl⟩

/-! ## The flavours agree -/

theorem int_flavours (hdeclared : Declared method)
    (harguments : ArgumentsOf method.signature arguments) :
    jniCallIntMethodV c settings w receiver (some method)
        (arguments.map (JValue.promoted c.toCFloat)) =
      jniCallIntMethodA c settings w receiver (some method) (some arguments) := by
  by_cases hname : method.name = cstr "getAssetSize"
  · obtain ⟨path, rfl⟩ :=
      eq_object_of_type (argumentsOf_declared (by simp [javaParameters]) hdeclared harguments hname)
    simp [jniCallIntMethodV, dispatchIntV, jniCallIntMethodA, hname, JValue.promoted, vaObject,
      valueObject]
  · simp [jniCallIntMethodV, dispatchIntV, jniCallIntMethodA, hname]

theorem float_flavours (hdeclared : Declared method)
    (harguments : ArgumentsOf method.signature arguments) :
    jniCallFloatMethodV c settings w receiver (some method)
        (arguments.map (JValue.promoted c.toCFloat)) =
      jniCallFloatMethodA c settings w receiver (some method) (some arguments) := by
  by_cases hscore : method.name = cstr "getPerformanceScore"
  · simp [jniCallFloatMethodV, dispatchFloat, jniCallFloatMethodA, hscore]
  by_cases haxis : method.name = cstr "getAxisValue"
  · obtain ⟨axis, rfl⟩ :=
      eq_int_of_type (argumentsOf_declared (by simp [javaParameters]) hdeclared harguments haxis)
    by_cases hmotion : (w.object receiver).map (·.1.kind) = some FakeKind.mogaMotionEvent <;>
      simp [jniCallFloatMethodV, dispatchFloat, jniCallFloatMethodA, haxis, JValue.promoted, vaInt,
        valueInt, hmotion]
  by_cases htext : method.name = cstr "measureText"
  · obtain ⟨text, rfl⟩ :=
      eq_object_of_type (argumentsOf_declared (by simp [javaParameters]) hdeclared harguments htext)
    simp [jniCallFloatMethodV, dispatchFloat, jniCallFloatMethodA, htext, JValue.promoted, vaObject,
      valueObject]
  simp [jniCallFloatMethodV, dispatchFloat, jniCallFloatMethodA, hscore, haxis, htext]

theorem newObject_flavours {classReference : Option Ref}
    (harguments : ArgumentsOf method.signature arguments) :
    jniNewObjectV c w classReference (some method) (arguments.map (JValue.promoted c.toCFloat)) =
      jniNewObjectA c w classReference (some method) (some arguments) := by
  by_cases hinit : method.name = cstr "<init>" ∧ method.signature = cstr "(II)V"
  · have htypes : arguments.map JValue.type = [.int, .int] := by
      rw [ArgumentsOf, hinit.2] at harguments
      exact Option.some.inj (harguments.symm.trans (by decide))
    obtain ⟨width, height, rfl⟩ := eq_ints_of_type htypes
    simp [jniNewObjectV, constructObject, jniNewObjectA, hinit, JValue.promoted, vaInt, valueInt]
  · simp [jniNewObjectV, constructObject, jniNewObjectA, hinit]

theorem void_flavours (hdeclared : Declared method)
    (harguments : ArgumentsOf method.signature arguments) :
    jniCallVoidMethodV c w receiver (some method) (arguments.map (JValue.promoted c.toCFloat)) =
      jniCallVoidMethodA c w receiver (some method) (some arguments) := by
  by_cases hsize : method.name = cstr "setTextSize"
  · obtain ⟨textSize, rfl⟩ :=
      eq_float_of_type (argumentsOf_declared (by simp [javaParameters]) hdeclared harguments hsize)
    simp [jniCallVoidMethodV, dispatchVoid, jniCallVoidMethodA, hsize, JValue.promoted, vaDouble,
      slotFloat, c.demote_promote_exact]
  by_cases hdraw : method.name = cstr "drawString"
  · obtain ⟨paint, text, x, y, rfl⟩ := eq_drawString_of_type
      (argumentsOf_declared (by simp [javaParameters]) hdeclared harguments hdraw)
    simp [jniCallVoidMethodV, dispatchVoid, jniCallVoidMethodA, hdraw, JValue.promoted, vaObject,
      vaInt, valueObject, valueInt]
  simp [jniCallVoidMethodV, dispatchVoid, jniCallVoidMethodA, hsize, hdraw]

/-- The variadic, the `va_list` and the `jvalue` array form of each family do the same for a
method with the parameters of the Java method of its name: Int and Float methods return the same
value, constructors make the same object and Void methods leave the same state. -/
theorem call_flavours_agree (hdeclared : Declared method)
    (harguments : ArgumentsOf method.signature arguments) (receiver classReference : Option Ref) :
    let promoted := arguments.map (JValue.promoted c.toCFloat)
    (jniCallIntMethod c settings w receiver (some method) promoted =
        jniCallIntMethodV c settings w receiver (some method) promoted ∧
      jniCallIntMethodV c settings w receiver (some method) promoted =
        jniCallIntMethodA c settings w receiver (some method) (some arguments)) ∧
    (jniCallFloatMethod c settings w receiver (some method) promoted =
        jniCallFloatMethodV c settings w receiver (some method) promoted ∧
      jniCallFloatMethodV c settings w receiver (some method) promoted =
        jniCallFloatMethodA c settings w receiver (some method) (some arguments)) ∧
    (jniNewObject c w classReference (some method) promoted =
        jniNewObjectV c w classReference (some method) promoted ∧
      jniNewObjectV c w classReference (some method) promoted =
        jniNewObjectA c w classReference (some method) (some arguments)) ∧
    (jniCallVoidMethod c w receiver (some method) promoted =
        jniCallVoidMethodV c w receiver (some method) promoted ∧
      jniCallVoidMethodV c w receiver (some method) promoted =
        jniCallVoidMethodA c w receiver (some method) (some arguments)) :=
  ⟨⟨rfl, int_flavours hdeclared harguments⟩, ⟨rfl, float_flavours hdeclared harguments⟩,
    ⟨rfl, newObject_flavours harguments⟩, ⟨rfl, void_flavours hdeclared harguments⟩⟩

/-- Small whole numbers, which have the low word 0 as a `double`. -/
def FloatOps.integral : FloatOps Int Int where
  toCFloat := .integral
  one := 1
  seven := 7
  fiftySix := 56
  lt x y := x < y
  le x y := x ≤ y
  div x y := x / y
  mul x y := x * y
  toInt := Int32.ofInt
  ofInt := id
  ofBits bits := bits.toNat
  lowWord _ := 0
  demote_promote_exact _ := rfl

/-- The paint of `paintWorld`, with all fields. -/
def paintValueWorld : ValueWorld Int := { paintWorld with data := fun _ => .blank }

theorem call_flavours_agree_setTextSize :
    jniCallVoidMethodA .integral paintValueWorld (some (.cell 0))
        (some ⟨cstr "setTextSize", cstr "(F)V", false⟩) (some [.float 40]) =
      some (paintValueWorld.setTextSize (.cell 0) 40) :=
  ((@call_flavours_agree Int Int .integral ⟨20, 640, 480⟩ paintValueWorld
    ⟨cstr "setTextSize", cstr "(F)V", false⟩ [.float 40] (by decide) (by decide)
    (some (.cell 0)) none).2.2.2.2).symm.trans rfl

/-- An overload with a `double`: its low word is 0, and that is what the array form sets. -/
theorem setTextSize_double_differs :
    ArgumentsOf (cstr "(D)V") [(.double 40 : JValue Int Int)] ∧
      ∃ wV wA, jniCallVoidMethodV .integral paintValueWorld (some (.cell 0))
          (some ⟨cstr "setTextSize", cstr "(D)V", false⟩) [.double 40] = some wV ∧
        jniCallVoidMethodA .integral paintValueWorld (some (.cell 0))
          (some ⟨cstr "setTextSize", cstr "(D)V", false⟩) (some [.double 40]) = some wA ∧
        (wV.heap.get (.cell 0)).map FakeObject.textSize = some 40 ∧
        (wA.heap.get (.cell 0)).map FakeObject.textSize = some 0 :=
  ⟨by decide, paintValueWorld.setTextSize (.cell 0) 40, paintValueWorld.setTextSize (.cell 0) 0,
    rfl, rfl, rfl, rfl⟩

end NfsmwRuntime.Jni
