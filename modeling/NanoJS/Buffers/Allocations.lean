import NanoJS.Buffers.Pool
import NanoJS.Js.Conversions

/-!
# Allocation from scripts

The functions of `App.js` that allocate, and the constructors they call, for arguments of any type.
Where the language converts an object, or reads its properties, user code may run: these are the
questions of the programs. Their operations are what they do to the zero-fill toggle, the pool
offset and the allocator; what is written into the buffers is not part of them.
-/

namespace NanoJS

open Callbacks Script

namespace ZeroFill

/-! ## Operations -/

/-- Whose array buffer is allocated: that of the `FastBuffer` that `createUnsafeBuffer` constructs,
or another. -/
inductive Owner
  | unsafeBuffer
  | other

/-- What the functions do to the data they share. `enter` and `leave` mark a call of
`createUnsafeBuffer`. -/
inductive Op
  | enter
  | leave
  | setZeroFill (value : UInt32)
  | allocate (owner : Owner) (size : ℕ)
  | poolOffset
  | setPoolOffset (offset : ℕ)

def Op.Reply : Op → Type
  | allocate .. => Bool
  | poolOffset => ℕ
  | _ => Unit

/-- A function that may ask user code. -/
abbrev Js (α : Type) := Script Op Op.Reply α

def op (o : Op) : Js o.Reply := Program.op (I := Scripts Op Op.Reply) o

/-! ## The constructors -/

section Constructors

variable (format : NumberFormat) (owner : Owner)

/-- The array buffer of a typed array. -/
def allocate (length : ℕ) : Js Unit :=
  if length > kMaxLength then
    throwJs (.rangeError s!"Invalid typed array length: {length}")
  else do
    match (← op (.allocate owner length) : Bool) with
    | true => return ()
    | false => throwJs (.rangeError "Array buffer allocation failed")

/-- The values of an iterator become elements. -/
def convertValues : List JSValue → Js Unit
  | [] => return ()
  | v :: values => do
    let _ ← toNumber format v
    convertValues values

/-- The elements of an array-like, from `i` on. -/
def readElements (v : JSValue) (i : ℕ) : ℕ → Js Unit
  | 0 => return ()
  | n + 1 => do
    let _ ← toNumber format (← ask (.getIndex v i))
    readElements v (i + 1) n

/-- A typed array of the values of an object: of its iterator, or else of its elements. -/
def newFromObject (object : JSValue) : Js Unit := do
  match (← ask (.iterate object) : Option (List JSValue)) with
  | some values =>
    allocate owner values.length
    convertValues format values
  | none =>
    let length ← toLength format (← ask (.get object "length"))
    allocate owner length
    readElements format object 0 length

/-- `new Uint8Array(first, second, third)` -/
def newUint8Array (first second third : JSValue) : Js Unit :=
  match first with
  | .object _ (.typedArray length) => allocate owner length
  | .object _ (.arrayBuffer byteLength) => do
    let offset ← toIndex format second
    let length ← if third = .undefined then pure (byteLength - offset) else toIndex format third
    if offset + length ≤ byteLength then return ()
    else throwJs (.rangeError s!"Invalid typed array length: {length}")
  | .object .. => newFromObject format owner first
  | _ => do allocate owner (← toIndex format first)

/-- `new FastBuffer(bufferOrLength, offset, length)` -/
def newFastBuffer (bufferOrLength offset length : JSValue) : Js Unit :=
  newUint8Array format owner bufferOrLength offset length

/-- `new ArrayBuffer(length)` -/
def newArrayBuffer (length : JSValue) : Js Unit := do
  match (← op (.allocate .other (← toIndex format length)) : Bool) with
  | true => return ()
  | false => throwJs (.rangeError "Array buffer allocation failed")

end Constructors

/-! ## `App.js` -/

variable (format : NumberFormat) (v8 : V8)

def createUnsafeBuffer (size : JSValue) : Js Unit := do
  op .enter
  op (.setZeroFill 0)
  try
    newFastBuffer format .unsafeBuffer size .undefined .undefined
  finally
    op (.setZeroFill 1)
    op .leave

def createPool : Js Unit := do
  createUnsafeBuffer format (.nat poolSize)
  op (.setPoolOffset 0)

/-- `if (full) createPool();` -/
def createPoolIf (full : Bool) : Js Unit :=
  if full then createPool format else return ()

def alignPool : Js Unit := do
  op (.setPoolOffset (alignOffset (← op .poolOffset)))

/-- `new FastBuffer(allocPool, poolOffset, length)` -/
def newPooled (length : JSValue) : Js Unit := do
  let poolOffset : ℕ ← op .poolOffset
  newFastBuffer format .other (.object 0 (.arrayBuffer poolSize)) (.nat poolOffset) length

/-- What `ops.write` returns. -/
def bytesWritten : Encoding → JSString → ℕ → ℕ
  | .utf8, string, length => (v8.writeUtf8 string length).length
  | .utf16le, string, length => (v8.write string length).2 * 2

/-- `__fromStringFast` -/
def fromStringFast (str : JSString) (ops : Encoding) : Js Unit := do
  let length := ops.byteLength v8 str
  if length ≥ poolSize >>> 1 then
    createUnsafeBuffer format (.nat length)
  else
    let poolOffset : ℕ ← op .poolOffset
    let poolMaxSize := poolSize - poolOffset
    createPoolIf format (length > poolMaxSize)
    newPooled format (.nat length)
    let poolOffset : ℕ ← op .poolOffset
    op (.setPoolOffset (poolOffset + bytesWritten v8 ops str length))
    alignPool

/-- `FastBuffer()` -/
def fastBufferCall : Js Unit :=
  throwJs (.typeError "Class constructor FastBuffer cannot be invoked without 'new'")

/-- `__fromString` -/
def fromString (value : JSString) (encoding : JSValue) : Js Unit :=
  match encoding with
  | .string (c :: encoding) => do
    match ← ofExcept (getEncodingOps (c :: encoding)) with
    | none => throwJs (.error "Invalid Encoding")
    | some ops => if value.length = 0 then fastBufferCall else fromStringFast format v8 value ops
  | _ => if value.length = 0 then fastBufferCall else fromStringFast format v8 value .utf8

/-- `v == undefined ? value : +v` -/
def numberOr (value : Number) (v : JSValue) : Js Number :=
  if v.isNullish then return value else toNumber format v

/-- `__fromArrayBuffer` -/
def fromArrayBuffer (value offset length : JSValue) : Js Unit := do
  let offset := Number.orZero (← numberOr format (.fin 0) offset)
  let byteLength ← toNumber format (← ask (.get value "byteLength"))
  let maxLength := byteLength.sub offset
  if maxLength.lt (.fin 0) then throwJs (.error "specified offest is out of boundires")
  else
    let length ← numberOr format maxLength length
    if length.lt (.fin 0) then newFastBuffer format .other value (.number offset) (.nat 0)
    else if maxLength.lt length then throwJs (.error "specified length is out of boundires")
    else newFastBuffer format .other value (.number offset) (.number length)

/-- The programs: what a script may call, the creation of the first pool, and the loop of
`__fromArrayLike`. -/
inductive Call
  | load
  | alloc (length fill encoding : JSValue)
  | allocUnsafe (length : JSValue)
  | bufferFrom (value encodingOrOffset length : JSValue)
  | newUint8Array (first second third : JSValue)
  | newArrayBuffer (length : JSValue)
  | copyElements (array : JSValue) (i : ℕ)

/-- `array.length`, as a comparison takes it. -/
def arrayLength (array : JSValue) : Js Number := do
  toNumeric format (← ask (.get array "length"))

/-- `for (; i < array.length; ++i) buffer[i] = array[i] & 255;` -/
def copyElements (array : JSValue) (i : ℕ) : Js (Option Call) := do
  if (Number.fin i).lt (← arrayLength format array) then
    let _ ← toNumber format (← ask (.getIndex array i))
    return some (.copyElements array (i + 1))
  else return none

/-- `__fromArrayLike`, up to its loop. The branch for large arrays reads a variable `length` that
does not exist. -/
def fromArrayLike (array : JSValue) : Js (Option Call) := do
  if (← arrayLength format array).le (.fin 0) then
    newFastBuffer format .other .undefined .undefined .undefined
    return none
  else if (Number.fin (poolSize >>> 1 : ℕ)).le (← arrayLength format array) then
    throwJs (.referenceError "length")
  else
    let poolOffset : ℕ ← op .poolOffset
    let length ← arrayLength format array
    createPoolIf format ((Number.fin (poolSize - poolOffset : ℕ)).lt length)
    newPooled format (← ask (.get array "length"))
    return some (.copyElements array 0)

/-- `value.length !== undefined || isAnyArrayBuffer(value.buffer)` -/
def isArrayLike (value : JSValue) : Js Bool := do
  let length : JSValue ← ask (.get value "length")
  if length ≠ .undefined then return true
  else ask (.instanceOf (← ask (.get value "buffer")))

/-- `__fromObject`: what makes the buffer that it returns, if it returns one. -/
def fromObject (value : JSValue) : Js (Option (Option Call)) := do
  if ← isArrayLike value then
    let length : JSValue ← ask (.get value "length")
    if length.isNumber then return some (← fromArrayLike format value)
    else
      newFastBuffer format .other .undefined .undefined .undefined
      return some none
  else return none

/-- `if (isAnyArrayBuffer(value)) __fromArrayBuffer(value, encodingOrOffest, length);` -/
def fromIfArrayBuffer (value encodingOrOffset length : JSValue) : Js Unit := do
  match (← ask (.instanceOf value) : Bool) with
  | true => fromArrayBuffer format value encodingOrOffset length
  | false => return ()

/-- `value.valueOf && value.valueOf()` -/
def valueOf (value : JSValue) : Js JSValue := do
  let method : JSValue ← ask (.get value "valueOf")
  if method.truthy then ask (.call value "valueOf") else return method

/-- `value[Symbol.toPrimitive]("string")`, if that is a function. -/
def toPrimitiveString (value : JSValue) : Js JSValue := do
  let method : JSValue ← ask (.get value "Symbol.toPrimitive")
  if method.isFunction then ask (.call value "Symbol.toPrimitive") else return .undefined

/-- `Buffer.from` of an object -/
def bufferFromObject (value encodingOrOffset length : JSValue) : Js (Option Call) := do
  fromIfArrayBuffer format value encodingOrOffset length
  let valueOf ← ZeroFill.valueOf value
  if !valueOf.isNullish ∧ valueOf ≠ value ∧ (valueOf.isString ∨ valueOf.isObject) then
    return some (.bufferFrom valueOf encodingOrOffset length)
  else
    match ← fromObject format value with
    | some next => return next
    | none =>
      let toPrimitive ← toPrimitiveString value
      if toPrimitive.isString then return some (.bufferFrom toPrimitive encodingOrOffset length)
      else return none

/-- `Buffer.from` -/
def bufferFrom (value encodingOrOffset length : JSValue) : Js (Option Call) :=
  match value with
  | .string s => do
    fromString format v8 s encodingOrOffset
    return none
  | value =>
    if value.isObject then bufferFromObject format value encodingOrOffset length else return none

/-- `__fill`. What it writes is not recorded. The variable `length` does not exist. -/
def fill (fillValue encoding : JSValue) : Js Unit :=
  match fillValue with
  | .string s => do
    match ← ofExcept (getEncodingOps (← concatEmpty format encoding)) with
    | none => throwJs (.error "Invalid encoding value")
    | some _ => if s.length = 0 then throwJs (.referenceError "length") else return ()
  | _ => return ()

/-- `Buffer.allocUnsafe` -/
def allocUnsafe (length : JSValue) : Js Unit := createUnsafeBuffer format length

/-- `Buffer.alloc` -/
def alloc (length fillValue encoding : JSValue) : Js Unit := do
  let length ← toNumber format length
  if length = .nan then throwJs (.typeError "Invalid length argument")
  else if (Number.fin 0).lt length ∧ !fillValue.isNullish ∧ fillValue ≠ .number (.fin 0) then
    createUnsafeBuffer format (.number length)
    fill format fillValue encoding
  else newFastBuffer format .other (.number length) .undefined .undefined

def Call.body : Call → Js (Option Call)
  | load => do createPool format; return none
  | alloc length fill encoding => do ZeroFill.alloc format length fill encoding; return none
  | allocUnsafe length => do ZeroFill.allocUnsafe format length; return none
  | bufferFrom value encodingOrOffset length =>
    ZeroFill.bufferFrom format v8 value encodingOrOffset length
  | newUint8Array first second third => do
    ZeroFill.newUint8Array format .other first second third
    return none
  | newArrayBuffer length => do ZeroFill.newArrayBuffer format length; return none
  | copyElements array i => ZeroFill.copyElements format array i

end ZeroFill

end NanoJS
