import NfsmwRuntime.Jni.Objects

/-!
# Object methods

`CallObjectMethod` and `CallObjectMethodV` share `dispatch_object`; `CallObjectMethodA`
has a dispatch of its own, by the same names in another order. Both compare the method's
name with `strcmp`, one candidate after the other, and answer what they do not know with
a generic object.

A call takes the heap and the OBB index to the heap and index after it and the pointer
returned. It is undefined (`none`) if it reads an argument that was not passed.
-/

namespace NfsmwRuntime.Jni

open Library Obb

structure FakeMethod where
  name : CString
  signature : CString
  isStatic : Bool

/-- An argument as the `jvalue` array of the A form holds it. Types narrower than `int`
are held as `int`. -/
inductive JValue (φ δ : Type) where
  | object (value : Option Ref)
  | int (value : Int32)
  | long (value : Int64)
  | float (value : φ)
  | double (value : δ)

/-- An argument as the variadic forms pass it. -/
inductive VaArg (δ : Type) where
  | object (value : Option Ref)
  | int (value : Int32)
  | long (value : Int64)
  | double (value : δ)

structure World (φ : Type) where
  heap : Heap φ
  index : ObbIndex

/-- The state after a call and the pointer returned. -/
abbrev Returned (φ : Type) := World φ × Option Ref

variable {φ δ : Type} (c : CFloat φ δ)

/-- The default argument promotions. -/
def JValue.promoted : JValue φ δ → VaArg δ
  | .object value => .object value
  | .int value => .int value
  | .long value => .long value
  | .float value => .double (c.promote value)
  | .double value => .double value

/-- `va_arg(arguments, void *)`, and the arguments left. -/
def vaObject : List (VaArg δ) → Option (Option Ref × List (VaArg δ))
  | .object value :: rest => some (value, rest)
  | _ => none

def vaDouble : List (VaArg δ) → Option (δ × List (VaArg δ))
  | .double value :: rest => some (value, rest)
  | _ => none

def valueObject (values : List (JValue φ δ)) (index : Nat) : Option (Option Ref) :=
  match values[index]? with
  | some (.object value) => some value
  | _ => none

def valueFloat (values : List (JValue φ δ)) (index : Nat) : Option φ :=
  match values[index]? with
  | some (.float value) => some value
  | _ => none

def returnStatic (w : World φ) (object : StaticObject) : Option (Returned φ) :=
  some (w, some (.static object))

def returnNew (w : World φ) (object : FakeObject φ) : Option (Returned φ) :=
  some ({ w with heap := (w.heap.alloc object).1 }, some (w.heap.alloc object).2)

def returnString (w : World φ) (text : CString) : Option (Returned φ) :=
  returnNew w (newString c text)

/-- `elements[0]` of a bitmap's graphics object. -/
def graphicsBitmap (object : Option (FakeObject φ)) : Option (Option Ref) := do
  let graphics ← object
  guard (graphics.kind = .bitmapGraphics)
  let elements ← graphics.elements
  return elements.headD none

/-- The children of a directory in the OBB index as a String array. -/
def returnListing (reallocOk : Bool) (w : World φ) (directory : Option Ref) : Option (Returned φ) :=
  let (index, children, count) :=
    nfsmwObbList reallocOk (some (stringValue w.heap directory)) w.index
  let (heap, array) := newChildArray c ((children.getD []).take count) w.heap
  some ({ heap, index }, some array)

def fontMetrics (object : Option (FakeObject φ)) : FakeObject φ :=
  { newObject c .fontMetrics none 0 with
    textSize := match object with
      | some paint => if c.positive paint.textSize then paint.textSize else c.sixteen
      | none => c.sixteen }

variable (reallocOk : Bool) (w : World φ)

def dispatchObject (receiver : Option Ref) (method : Option FakeMethod)
    (arguments : List (VaArg δ)) : Option (Returned φ) :=
  let name := (method.map FakeMethod.name).getD []
  let object := asObject w.heap receiver
  if name = cstr "createPaintFromFamilyName" ∨ name = cstr "createPaintFromFile" then do
    let (_, arguments) ← vaObject arguments
    let (textSize, _) ← vaDouble arguments
    returnNew w (newPaint c (c.demote textSize))
  else if name = cstr "getFontMetricsInt" then returnNew w (fontMetrics c object)
  else if name = cstr "getBitmap" ∧ (graphicsBitmap object).isSome then
    some (w, (graphicsBitmap object).join)
  else if name = cstr "getStatus" then returnNew w (newObject c .networkStatus none 0)
  else if name = cstr "getObbFullPath" then returnString c w (nfsmwObbPath w.index)
  else if name = cstr "GetDefaultLanguage" then returnString c w (cstr "en")
  else if name = cstr "GetDeviceLocale" then returnString c w (cstr "EN-US")
  else if name = cstr "GetDeviceName" then returnString c w (cstr "R36S")
  else if name = cstr "GetApplicationVersion" then returnString c w (cstr "1.3.128")
  else if name = cstr "getOsVersion" then returnString c w (cstr "4.4.4")
  else if name = cstr "getPackageName" then returnString c w (cstr "com.ea.games.nfs13_row")
  else if name = cstr "getRunLoop" then returnStatic w .runLoop
  else if name = cstr "getGameGLSurfaceView" then returnStatic w .surfaceView
  else if name = cstr "getDisplayMetrics" then returnStatic w .displayMetrics
  else if name = cstr "getFilesDir" then returnNew w (newObject c .file (some (cstr "./files")) 0)
  else if name = cstr "getCacheDir" then returnNew w (newObject c .file (some (cstr "./cache")) 0)
  else if name = cstr "getExternalStorageDirectory" then
    returnNew w (newObject c .file (some (cstr ".")) 0)
  else if name = cstr "getAbsolutePath" then returnString c w (stringValue w.heap receiver)
  else if name = cstr "forEach" ∨ name = cstr "list" then do
    let (argument, _) ← vaObject arguments
    returnListing c reallocOk w argument
  else if name = cstr "getNotchesBoundingRects" then
    returnNew w { newObject c .objectArray none 0 with elements := some [none] }
  else if name = cstr "loadClass" then do
    let (className, _) ← vaObject arguments
    returnNew w (newObject c .class_ (some (stringValue w.heap className)) 0)
  else returnNew w (newObject c .generic none 0)

/-- The variadic form. -/
def jniCallObjectMethod (object : Option Ref) (method : Option FakeMethod)
    (arguments : List (VaArg δ)) : Option (Returned φ) :=
  if method.map FakeMethod.name = some (cstr "getAbsolutePath") then
    returnString c w (stringValue w.heap object)
  else dispatchObject c reallocOk w object method arguments

/-- The `va_list` form. -/
def jniCallObjectMethodV (object : Option Ref) (method : Option FakeMethod)
    (arguments : List (VaArg δ)) : Option (Returned φ) :=
  if method.map FakeMethod.name = some (cstr "getAbsolutePath") then
    returnString c w (stringValue w.heap object)
  else dispatchObject c reallocOk w object method arguments

/-- The `jvalue` array form; `none` is a NULL array. -/
def jniCallObjectMethodA (object : Option Ref) (method : Option FakeMethod)
    (arguments : Option (List (JValue φ δ))) : Option (Returned φ) :=
  let name := method.map FakeMethod.name
  if name = some (cstr "getAbsolutePath") then returnString c w (stringValue w.heap object)
  else if name = some (cstr "getBitmap") then
    some (w, (graphicsBitmap (asObject w.heap object)).join)
  else if (name = some (cstr "createPaintFromFamilyName") ∨
      name = some (cstr "createPaintFromFile")) ∧ arguments.isSome then do
    let textSize ← valueFloat (arguments.getD []) 1
    returnNew w (newPaint c textSize)
  else if name = some (cstr "getObbFullPath") then returnString c w (nfsmwObbPath w.index)
  else if name = some (cstr "GetDefaultLanguage") then returnString c w (cstr "en")
  else if name = some (cstr "GetDeviceLocale") then returnString c w (cstr "EN-US")
  else if name = some (cstr "GetDeviceName") then returnString c w (cstr "R36S")
  else if name = some (cstr "GetApplicationVersion") then returnString c w (cstr "1.3.128")
  else if name = some (cstr "getOsVersion") then returnString c w (cstr "4.4.4")
  else if name = some (cstr "getPackageName") then
    returnString c w (cstr "com.ea.games.nfs13_row")
  else if name = some (cstr "getRunLoop") then returnStatic w .runLoop
  else if name = some (cstr "getGameGLSurfaceView") then returnStatic w .surfaceView
  else if name = some (cstr "getDisplayMetrics") then returnStatic w .displayMetrics
  else if name = some (cstr "getStatus") then returnNew w (newObject c .networkStatus none 0)
  else if name = some (cstr "getFilesDir") then
    returnNew w (newObject c .file (some (cstr "./files")) 0)
  else if name = some (cstr "getCacheDir") then
    returnNew w (newObject c .file (some (cstr "./cache")) 0)
  else if name = some (cstr "getExternalStorageDirectory") then
    returnNew w (newObject c .file (some (cstr ".")) 0)
  else if (name = some (cstr "forEach") ∨ name = some (cstr "list")) ∧ arguments.isSome then do
    let argument ← valueObject (arguments.getD []) 0
    returnListing c reallocOk w argument
  else returnNew w (newObject c .generic none 0)

/-! ## When the three agree -/

/-- All three forms return, and what they return looks the same. -/
def FlavoursAgree (receiver : Option Ref) (method : FakeMethod)
    (arguments : List (JValue φ δ)) : Prop :=
  ∃ v vv va,
    jniCallObjectMethod c reallocOk w receiver (some method)
      (arguments.map (JValue.promoted c)) = some v ∧
    jniCallObjectMethodV c reallocOk w receiver (some method)
      (arguments.map (JValue.promoted c)) = some vv ∧
    jniCallObjectMethodA c reallocOk w receiver (some method) (some arguments) = some va ∧
    Alike w.heap.cells.length v.1.heap vv.1.heap v.2 vv.2 ∧
    Alike w.heap.cells.length v.1.heap va.1.heap v.2 va.2

/-- The methods that the A form has no case for. -/
def onlyVariadic : List CString :=
  [cstr "getFontMetricsInt", cstr "getNotchesBoundingRects", cstr "loadClass"]

/-- The arguments that the dispatch of a method reads are passed. -/
def ArgumentsFit (name : CString) (arguments : List (JValue φ δ)) : Prop :=
  (name = cstr "createPaintFromFamilyName" ∨ name = cstr "createPaintFromFile" →
    ∃ family textSize rest, arguments = .object family :: .float textSize :: rest) ∧
  (name = cstr "forEach" ∨ name = cstr "list" →
    ∃ argument rest, arguments = .object argument :: rest)

/-- The methods that either dispatch answers without looking at the arguments. -/
def answered : List CString :=
  [cstr "getStatus", cstr "getObbFullPath", cstr "GetDefaultLanguage", cstr "GetDeviceLocale",
    cstr "GetDeviceName", cstr "GetApplicationVersion", cstr "getOsVersion",
    cstr "getPackageName", cstr "getRunLoop", cstr "getGameGLSurfaceView",
    cstr "getDisplayMetrics", cstr "getFilesDir", cstr "getCacheDir",
    cstr "getExternalStorageDirectory", cstr "getAbsolutePath"]

/-- The `va_list` and the `jvalue` array form do the same. -/
def SameCall (receiver : Option Ref) (method : FakeMethod) (arguments : List (JValue φ δ)) :
    Prop :=
  ∃ v, jniCallObjectMethodV c reallocOk w receiver (some method)
      (arguments.map (JValue.promoted c)) = some v ∧
    jniCallObjectMethodA c reallocOk w receiver (some method) (some arguments) = some v

variable {w} {receiver : Option Ref} {method : FakeMethod} {arguments : List (JValue φ δ)}

theorem sameCall_answered (h : method.name ∈ answered) :
    SameCall c reallocOk w receiver method arguments := by
  simp only [answered, List.mem_cons, List.not_mem_nil, or_false] at h
  rcases h with h | h | h | h | h | h | h | h | h | h | h | h | h | h | h <;>
    simp [SameCall, jniCallObjectMethodV, dispatchObject, jniCallObjectMethodA, h, returnString,
      returnNew, returnStatic]

theorem sameCall_getBitmap (h : method.name = cstr "getBitmap")
    (hbitmap : (graphicsBitmap (asObject w.heap receiver)).isSome) :
    SameCall c reallocOk w receiver method arguments := by
  simp [SameCall, jniCallObjectMethodV, dispatchObject, jniCallObjectMethodA, h, hbitmap]

/-- The text size survives its promotion, and a size that is not positive is replaced in
either form. -/
theorem newPaint_demote_promote (textSize : φ) :
    newPaint c (c.demote (c.promote textSize)) = newPaint c textSize := by
  simp only [newPaint, c.positive_promote]
  cases hpositive : c.positive textSize with
  | false => rfl
  | true => rw [c.demote_promote textSize hpositive]

theorem sameCall_createPaint
    (h : method.name = cstr "createPaintFromFamilyName" ∨
      method.name = cstr "createPaintFromFile")
    (hfit : ∃ family textSize rest, arguments = .object family :: .float textSize :: rest) :
    SameCall c reallocOk w receiver method arguments := by
  obtain ⟨family, textSize, rest, rfl⟩ := hfit
  rcases h with h | h <;>
    simp [SameCall, jniCallObjectMethodV, dispatchObject, jniCallObjectMethodA, h, vaObject,
      vaDouble, valueFloat, JValue.promoted, newPaint_demote_promote, returnNew]

theorem sameCall_list (h : method.name = cstr "forEach" ∨ method.name = cstr "list")
    (hfit : ∃ argument rest, arguments = .object argument :: rest) :
    SameCall c reallocOk w receiver method arguments := by
  obtain ⟨argument, rest, rfl⟩ := hfit
  rcases h with h | h <;>
    simp [SameCall, jniCallObjectMethodV, dispatchObject, jniCallObjectMethodA, h, vaObject,
      valueObject, JValue.promoted, returnListing]

/-- A method that neither dispatch knows. -/
theorem sameCall_unknown (hanswered : method.name ∉ answered)
    (hvariadic : method.name ∉ onlyVariadic) (hbitmap : method.name ≠ cstr "getBitmap")
    (hpaint : ¬ (method.name = cstr "createPaintFromFamilyName" ∨
      method.name = cstr "createPaintFromFile"))
    (hlist : ¬ (method.name = cstr "forEach" ∨ method.name = cstr "list")) :
    SameCall c reallocOk w receiver method arguments := by
  simp only [answered, onlyVariadic, List.mem_cons, List.not_mem_nil, or_false, not_or]
    at hanswered hvariadic hpaint hlist
  simp [SameCall, jniCallObjectMethodV, dispatchObject, jniCallObjectMethodA, hanswered,
    hvariadic, hbitmap, hpaint, hlist, returnNew]

/-- Outside the three methods and the bitmap of what has none, the dispatches agree. -/
theorem sameCall_of_fit (hvariadic : method.name ∉ onlyVariadic)
    (hbitmap : method.name = cstr "getBitmap" →
      (graphicsBitmap (asObject w.heap receiver)).isSome)
    (hfit : ArgumentsFit method.name arguments) :
    SameCall c reallocOk w receiver method arguments := by
  by_cases hanswered : method.name ∈ answered
  · exact sameCall_answered c reallocOk hanswered
  by_cases hname : method.name = cstr "getBitmap"
  · exact sameCall_getBitmap c reallocOk hname (hbitmap hname)
  by_cases hpaint : method.name = cstr "createPaintFromFamilyName" ∨
      method.name = cstr "createPaintFromFile"
  · exact sameCall_createPaint c reallocOk hpaint (hfit.1 hpaint)
  by_cases hlist : method.name = cstr "forEach" ∨ method.name = cstr "list"
  · exact sameCall_list c reallocOk hlist (hfit.2 hlist)
  exact sameCall_unknown c reallocOk hanswered hvariadic hname hpaint hlist

theorem flavoursAgree_of_sameCall (h : SameCall c reallocOk w receiver method arguments) :
    FlavoursAgree c reallocOk w receiver method arguments := by
  obtain ⟨v, hv, ha⟩ := h
  exact ⟨v, v, v, hv, hv, ha, .refl _ _ _, .refl _ _ _⟩

/-! ## Where they differ -/

/-- New objects of two kinds do not look the same. -/
theorem not_alike_returnNew {a b : FakeObject φ} (hkind : a.kind ≠ b.kind) {v va : Returned φ}
    (hv : returnNew w a = some v) (hva : returnNew w b = some va) :
    ¬ Alike w.heap.cells.length v.1.heap va.1.heap v.2 va.2 := by
  obtain rfl := Option.some.inj hv
  obtain rfl := Option.some.inj hva
  exact fun h => hkind h.kind_eq

theorem not_flavoursAgree_onlyVariadic (h : method.name ∈ onlyVariadic) :
    ¬ FlavoursAgree c reallocOk w receiver method arguments := by
  rintro ⟨v, -, va, hv, -, hva, -, halike⟩
  have hgeneric : returnNew w (newObject c .generic none 0) = some va := by
    rw [← hva]
    simp only [onlyVariadic, List.mem_cons, List.not_mem_nil, or_false] at h
    rcases h with h | h | h <;> simp [jniCallObjectMethodA, h]
  simp only [onlyVariadic, List.mem_cons, List.not_mem_nil, or_false] at h
  rcases h with h | h | h
  · have hmetrics : returnNew w (fontMetrics c (asObject w.heap receiver)) = some v := by
      rw [← hv]
      simp [jniCallObjectMethod, dispatchObject, h]
    exact not_alike_returnNew (by simp [fontMetrics, newObject]) hmetrics hgeneric halike
  · have hnotches : returnNew w { newObject c .objectArray none 0 with elements := some [none] } =
        some v := by
      rw [← hv]
      simp [jniCallObjectMethod, dispatchObject, h]
    exact not_alike_returnNew (by simp [newObject]) hnotches hgeneric halike
  · have hload : ((vaObject (arguments.map (JValue.promoted c))).bind fun argument =>
        returnNew w (newObject c .class_ (some (stringValue w.heap argument.1)) 0)) = some v := by
      rw [← hv]
      simp [jniCallObjectMethod, dispatchObject, h]
    obtain ⟨className, -, hclass⟩ := Option.bind_eq_some_iff.mp hload
    exact not_alike_returnNew (by simp [newObject]) hclass hgeneric halike

theorem not_flavoursAgree_getBitmap (h : method.name = cstr "getBitmap")
    (hnone : ¬ (graphicsBitmap (asObject w.heap receiver)).isSome) :
    ¬ FlavoursAgree c reallocOk w receiver method arguments := by
  rintro ⟨v, -, va, hv, -, hva, -, R, -, hrel⟩
  simp only [Bool.not_eq_true, Option.isSome_eq_false_iff, Option.isNone_iff_eq_none] at hnone
  have hgeneric : returnNew w (newObject c .generic none 0) = some v := by
    rw [← hv]
    simp [jniCallObjectMethod, dispatchObject, h, hnone]
  have hnull : some (w, none) = some va := by
    rw [← hva]
    simp [jniCallObjectMethodA, h, hnone]
  obtain rfl := Option.some.inj hgeneric
  obtain rfl := Option.some.inj hnull
  cases hrel

/-- What `va_arg` finds was passed. -/
theorem vaObject_promoted {value : Option Ref} {rest : List (VaArg δ)}
    (h : vaObject (arguments.map (JValue.promoted c)) = some (value, rest)) :
    ∃ values, arguments = .object value :: values ∧ rest = values.map (JValue.promoted c) := by
  match arguments, h with
  | .object value' :: values, h =>
    simp only [List.map_cons, JValue.promoted, vaObject, Option.some.injEq, Prod.mk.injEq] at h
    obtain ⟨rfl, rfl⟩ := h
    exact ⟨values, rfl, rfl⟩

theorem argumentsFit_of_flavoursAgree (h : FlavoursAgree c reallocOk w receiver method arguments) :
    ArgumentsFit method.name arguments := by
  obtain ⟨v, -, va, hv, -, hva, -, -⟩ := h
  constructor
  · intro hname
    have hread : ((vaObject (arguments.map (JValue.promoted c))).bind fun family =>
        (vaDouble family.2).bind fun textSize =>
          returnNew w (newPaint c (c.demote textSize.1))) = some v := by
      rw [← hv]
      rcases hname with hname | hname <;> simp [jniCallObjectMethod, dispatchObject, hname]
    have hfloat : ((valueFloat arguments 1).bind fun textSize =>
        returnNew w (newPaint c textSize)) = some va := by
      rw [← hva]
      rcases hname with hname | hname <;> simp [jniCallObjectMethodA, hname]
    obtain ⟨⟨family, rest⟩, hfamily, -⟩ := Option.bind_eq_some_iff.mp hread
    obtain ⟨textSize, hsize, -⟩ := Option.bind_eq_some_iff.mp hfloat
    obtain ⟨values, rfl, -⟩ := vaObject_promoted c hfamily
    match values, hsize with
    | .float _ :: rest, _ => exact ⟨family, _, rest, rfl⟩
  · intro hname
    have hread : ((vaObject (arguments.map (JValue.promoted c))).bind fun argument =>
        returnListing c reallocOk w argument.1) = some v := by
      rw [← hv]
      rcases hname with hname | hname <;> simp [jniCallObjectMethod, dispatchObject, hname]
    obtain ⟨⟨argument, rest⟩, hargument, -⟩ := Option.bind_eq_some_iff.mp hread
    obtain ⟨values, hvalues, -⟩ := vaObject_promoted c hargument
    exact ⟨argument, values, hvalues⟩

/-- The three call forms agree on a method exactly if the A form has a case for it, it is
not `getBitmap` of something without a bitmap, and its arguments are passed. -/
theorem flavoursAgree_iff :
    FlavoursAgree c reallocOk w receiver method arguments ↔
      method.name ∉ onlyVariadic ∧
        (method.name = cstr "getBitmap" →
          (graphicsBitmap (asObject w.heap receiver)).isSome) ∧
        ArgumentsFit method.name arguments := by
  constructor
  · intro h
    refine ⟨fun hvariadic => not_flavoursAgree_onlyVariadic c reallocOk hvariadic h,
      fun hname => ?_, argumentsFit_of_flavoursAgree c reallocOk h⟩
    by_contra hnone
    exact not_flavoursAgree_getBitmap c reallocOk hname hnone h
  · rintro ⟨hvariadic, hbitmap, hfit⟩
    exact flavoursAgree_of_sameCall c reallocOk (sameCall_of_fit c reallocOk hvariadic hbitmap hfit)

/-- Floats that are small integers; all of them survive every conversion. -/
def CFloat.integral : CFloat Int Int where
  zero := 0
  sixteen := 16
  positive x := 0 < x
  promote := id
  demote := id
  demote_promote _ _ := rfl
  positive_promote _ := rfl

/-- A heap with nothing but a paint of size 24, and no archive. -/
def paintWorld : World Int where
  heap :=
    { static := fun _ => newObject .integral .generic none 0
      cells := [{ newObject CFloat.integral .paint none 0 with textSize := 24 }] }
  index := ⟨[], [], [], 0⟩

/-- The metrics of a paint come back as an object of no particular kind from the A form. -/
theorem fontMetrics_differ :
    ¬ FlavoursAgree .integral true paintWorld (some (.cell 0))
      ⟨cstr "getFontMetricsInt", cstr "()Landroid/graphics/Paint$FontMetricsInt;", false⟩ [] := by
  rintro ⟨v, -, va, hv, -, hva, -, halike⟩
  obtain rfl := Option.some.inj hv
  obtain rfl := Option.some.inj hva
  exact absurd halike.kind_eq (by decide)

end NfsmwRuntime.Jni
