import Mathlib.Algebra.Group.Int.Defs
import Mathlib.Algebra.Group.Nat.Defs
import Mathlib.Data.Rat.Defs

/-!
# JavaScript values

The values that cross between scripts and the engine. A string is its UTF-16 code units, a number
a double read as a rational (or one of the three doubles that are none), an object its own
enumerable properties in order, and a buffer a view of a backing store. A function value is a
closure: a function of the user's program, or one of the closures `App.js` wraps around it.
-/

namespace NanoJS

/-- A JavaScript string, as UTF-16 code units. -/
abbrev JSString := List UInt16

/-- The bytes a `const char *` or a `std::string` holds. -/
abbrev CString := List UInt8

/-- The code units of a literal of the source. -/
def jsString (s : String) : JSString := s.toList.map fun c => c.val.toUInt16

/-- The bytes of an ASCII literal of the source. -/
def cString (s : String) : CString := s.toList.map fun c => c.val.toUInt8

/-- A JavaScript number. -/
inductive Number
  | nan
  | negInf
  | posInf
  | fin (q : ℚ)
  deriving DecidableEq

/-- `IntegerValue` of a number or undefined. -/
def integerValue : Option Number → ℤ
  | some (.fin q) => max (-2 ^ 63) (min (2 ^ 63 - 1) (q.num.tdiv q.den))
  | some .posInf => 2 ^ 63 - 1
  | some .negInf => -2 ^ 63
  | some .nan | none => 0

/-- `TypedArray::kMaxLength`. -/
def kMaxLength : ℕ := 0x7FFFFFFF

/-- `String::kMaxLength`. -/
def kMaxStringLength : ℕ := 0x7FFFFFFF / 2 - 24

/-- A `Uint8Array`: `byteLength` bytes of a backing store from `byteOffset` on. -/
structure View where
  store : ℕ
  byteOffset : ℕ
  byteLength : ℕ
  le_max : byteLength ≤ kMaxLength
  deriving DecidableEq

/-- The primitive values. -/
inductive Prim
  | undefined
  | null
  | boolean (b : Bool)
  | number (n : Number)
  | string (s : JSString)
  deriving DecidableEq

/-- The values that the engine hands to a callback. -/
inductive Value
  | prim (p : Prim)
  | object (props : List (String × Prim))
  | buffer (v : View)
  deriving DecidableEq

namespace Value

def undefined : Value := .prim .undefined

def null : Value := .prim .null

/-- A number that is an integer. -/
def int (n : ℤ) : Value := .prim (.number (.fin n))

end Value

/-- Why a function does not return: the exceptions that the functions of `App.js` throw, or the
language throws in them; and where a native function casts a value to a type that it does not have,
which is no exception, but leaves the behaviour of the process undefined. -/
inductive JSError
  | error (message : String)
  | typeError (message : String)
  | rangeError (message : String)
  | referenceError (name : String)
  | undefinedBehaviour (function : String)
  deriving DecidableEq

/-- A function value. `user fn call` is a function of the user's program, labelled with the API
call it was passed to; the others are the closures that `App.js` creates. -/
inductive Closure
  | user (fn call : ℕ)
  /-- `callbackWrapper` of `Files.read`. -/
  | readWrapper (callbackFunc : Closure) (buffer : View)
  /-- The arrow function that `Files.readFile` passes to `fs.getStatsAsync`. -/
  | statArrow (path : JSString) (callback : Closure)
  /-- `callbackWrapper` of `Files.readFile`. -/
  | readFileWrapper (callback : Closure) (buffer : View)
  deriving DecidableEq

/-- The API call whose callback a closure leads to. -/
def Closure.call : Closure → ℕ
  | .user _ call => call
  | .readWrapper callbackFunc _ => callbackFunc.call
  | .statArrow _ callback => callback.call
  | .readFileWrapper callback _ => callback.call

end NanoJS
