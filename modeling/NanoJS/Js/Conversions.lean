import Mathlib.Algebra.Order.Ring.Rat
import NanoJS.Foundations.Callbacks
import NanoJS.Js.Values

/-!
# Conversions that run user code

The values of any type that a script may pass, and the conversions of the language. A conversion of
an object is a program that asks user code (`Question`): what it does before it answers, and whether
it answers with an exception, is up to it. How a string is read as a number, and a number written as
a string, are parameters.
-/

namespace NanoJS

open Callbacks

/-! ## Values of any type -/

/-- What a constructor or `typeof` sees of an object. Its properties are for user code to answer. -/
inductive ObjectKind
  | ordinary
  | function
  | arrayBuffer (byteLength : ℕ)
  | typedArray (length : ℕ)
  deriving DecidableEq

/-- A JavaScript value of any type. An object has an identity. -/
inductive JSValue
  | undefined
  | null
  | boolean (b : Bool)
  | number (n : Number)
  | string (s : JSString)
  | symbol
  | bigint (z : ℤ)
  | object (id : ℕ) (kind : ObjectKind)
  deriving DecidableEq

namespace JSValue

/-- A number that is a natural number. -/
def nat (n : ℕ) : JSValue := number (.fin n)

/-- `v == undefined` -/
def isNullish : JSValue → Bool
  | undefined | null => true
  | _ => false

/-- `!!v` -/
def truthy : JSValue → Bool
  | undefined | null => false
  | boolean b => b
  | number n => n ≠ .nan ∧ n ≠ .fin 0
  | string s => s ≠ []
  | symbol | object .. => true
  | bigint z => z ≠ 0

/-- `typeof v === "object" && v !== null` -/
def isObject : JSValue → Bool
  | object _ kind => kind ≠ .function
  | _ => false

/-- `typeof v === "function"` -/
def isFunction : JSValue → Bool
  | object _ kind => kind = .function
  | _ => false

def isString : JSValue → Bool
  | string _ => true
  | _ => false

def isNumber : JSValue → Bool
  | number _ => true
  | _ => false

end JSValue

/-- `a < b` of numbers -/
def Number.lt : Number → Number → Bool
  | .fin a, .fin b => a < b
  | .fin _, .posInf | .negInf, .fin _ | .negInf, .posInf => true
  | _, _ => false

/-- `a <= b` of numbers -/
def Number.le (a b : Number) : Bool := a.lt b || (a = b ∧ a ≠ .nan)

/-- `a - b` of numbers -/
def Number.sub : Number → Number → Number
  | .fin a, .fin b => .fin (a - b)
  | .posInf, .fin _ | .posInf, .negInf | .fin _, .negInf => .posInf
  | .negInf, .fin _ | .negInf, .posInf | .fin _, .posInf => .negInf
  | _, _ => .nan

/-- `a + b` of numbers -/
def Number.add : Number → Number → Number
  | .fin a, .fin b => .fin (a + b)
  | .posInf, .fin _ | .posInf, .posInf | .fin _, .posInf => .posInf
  | .negInf, .fin _ | .negInf, .negInf | .fin _, .negInf => .negInf
  | _, _ => .nan

/-- Zero for `NaN`. -/
def Number.orZero : Number → Number
  | .nan => .fin 0
  | n => n

/-- `ToIntegerOrInfinity` of a rational number. -/
def truncate (q : ℚ) : ℤ := q.num.tdiv q.den

/-! ## Questions to user code -/

/-- A point of the language at which user code may run. -/
inductive Question
  /-- The methods that convert an object to a primitive value. -/
  | toPrimitive (v : JSValue)
  /-- The property `v.name`. -/
  | get (v : JSValue) (name : String)
  /-- The element `v[i]`. -/
  | getIndex (v : JSValue) (i : ℕ)
  /-- The call `v.name()`. -/
  | call (v : JSValue) (name : String)
  /-- Whether the prototype chain of `v` says that it is an array buffer. -/
  | instanceOf (v : JSValue)
  /-- The values of its iterator, if it has one. -/
  | iterate (v : JSValue)

/-- The type of the answers. -/
def Question.Answer : Question → Type
  | instanceOf _ => Bool
  | iterate _ => Option (List JSValue)
  | _ => JSValue

/-- What is thrown: an exception of the engine, or a value of user code. -/
abbrev Thrown := Option JSError

/-- How the language reads and writes numbers. -/
structure NumberFormat where
  ofString : JSString → Number
  toString : Number → JSString

/-- `v + ""` of a primitive value. -/
def JSValue.concatEmpty (format : NumberFormat) : JSValue → Except JSError JSString
  | undefined => .ok (jsString "undefined")
  | null => .ok (jsString "null")
  | boolean b => .ok (jsString (if b then "true" else "false"))
  | number n => .ok (format.toString n)
  | string s => .ok s
  | symbol => .error (.typeError "Cannot convert a Symbol value to a string")
  | bigint z => .ok (jsString (ToString.toString z))
  | object .. => .error (.typeError "Cannot convert object to primitive value")

/-- `+v` of a primitive value. -/
def JSValue.toNumber (format : NumberFormat) : JSValue → Except JSError Number
  | undefined => .ok .nan
  | null => .ok (.fin 0)
  | boolean b => .ok (.fin (if b then 1 else 0))
  | number n => .ok n
  | string s => .ok (format.ofString s)
  | symbol => .error (.typeError "Cannot convert a Symbol value to a number")
  | bigint _ => .error (.typeError "Cannot convert a BigInt value to a number")
  | object .. => .error (.typeError "Cannot convert object to primitive value")

/-- Programs whose questions go to user code. -/
abbrev Scripts (Op : Type) (Reply : Op → Type) : Interface := ⟨Op, Reply, Question, Question.Answer⟩

/-- A function of a script, with the operations `Op`. -/
abbrev Script (Op : Type) (Reply : Op → Type) (α : Type) := Program (Scripts Op Reply) Thrown α

namespace Script

variable {Op : Type} {Reply : Op → Type} {α : Type}

/-- A question to user code. -/
def ask (q : Question) : Script Op Reply q.Answer := Program.query (I := Scripts Op Reply) q

def throwJs (e : JSError) : Script Op Reply α := .throw (some e)

def ofExcept : Except JSError α → Script Op Reply α
  | .ok a => .pure a
  | .error e => throwJs e

/-! ## Conversions -/

/-- `ToPrimitive` -/
def toPrimitive (v : JSValue) : Script Op Reply JSValue :=
  match v with
  | .object .. => do
    match (← ask (.toPrimitive v) : JSValue) with
    | .object .. => throwJs (.typeError "Cannot convert object to primitive value")
    | p => return p
  | _ => return v

variable (format : NumberFormat)

/-- `ToNumber` -/
def toNumber (v : JSValue) : Script Op Reply Number := do
  match ← toPrimitive v with
  | .undefined | .object .. => return .nan
  | .null => return .fin 0
  | .boolean b => return .fin (if b then 1 else 0)
  | .number n => return n
  | .string s => return format.ofString s
  | .symbol => throwJs (.typeError "Cannot convert a Symbol value to a number")
  | .bigint _ => throwJs (.typeError "Cannot convert a BigInt value to a number")

/-- The value of `v` in a comparison with a number. -/
def toNumeric (v : JSValue) : Script Op Reply Number := do
  match ← toPrimitive v with
  | .bigint z => return .fin z
  | p => toNumber format p

/-- `v + ""` -/
def concatEmpty (v : JSValue) : Script Op Reply JSString := do
  ofExcept ((← toPrimitive v).concatEmpty format)

/-- `Number.MAX_SAFE_INTEGER` -/
def maxSafeInteger : ℕ := 9007199254740991

/-- `ToIndex` -/
def toIndex (v : JSValue) : Script Op Reply ℕ := do
  match ← toNumber format v with
  | .nan => return 0
  | .fin q =>
    if truncate q < 0 ∨ maxSafeInteger < (truncate q).toNat then
      throwJs (.rangeError "Invalid typed array length")
    else return (truncate q).toNat
  | _ => throwJs (.rangeError "Invalid typed array length")

/-- `ToLength` -/
def toLength (v : JSValue) : Script Op Reply ℕ := do
  match ← toNumber format v with
  | .fin q => return min (truncate q).toNat maxSafeInteger
  | .posInf => return maxSafeInteger
  | _ => return 0

/-! ## What a conversion may do -/

theorem toPrimitive_onlyAsks (v : JSValue) :
    (toPrimitive v : Script Op Reply JSValue).OnlyAsks := by
  cases v with
  | object id kind =>
    refine .bind (.query _) fun a => ?_
    cases a <;> trivial
  | _ => trivial

theorem toNumber_onlyAsks (v : JSValue) :
    (toNumber format v : Script Op Reply Number).OnlyAsks := by
  refine .bind (toPrimitive_onlyAsks v) fun p => ?_
  cases p <;> trivial

theorem toNumeric_onlyAsks (v : JSValue) :
    (toNumeric format v : Script Op Reply Number).OnlyAsks := by
  refine .bind (toPrimitive_onlyAsks v) fun p => ?_
  cases p with
  | bigint => trivial
  | _ => exact toNumber_onlyAsks format _

theorem concatEmpty_onlyAsks (v : JSValue) :
    (concatEmpty format v : Script Op Reply JSString).OnlyAsks := by
  refine .bind (toPrimitive_onlyAsks v) fun p => ?_
  cases p <;> trivial

theorem toIndex_onlyAsks (v : JSValue) : (toIndex format v : Script Op Reply ℕ).OnlyAsks := by
  refine .bind (toNumber_onlyAsks format v) fun n => ?_
  cases n with
  | fin q =>
    show Program.OnlyAsks (ite _ _ _)
    split <;> trivial
  | _ => trivial

theorem toLength_onlyAsks (v : JSValue) : (toLength format v : Script Op Reply ℕ).OnlyAsks := by
  refine .bind (toNumber_onlyAsks format v) fun n => ?_
  cases n <;> trivial

/-- A natural number is an index as it is. -/
theorem toIndex_nat {n : ℕ} (h : n ≤ maxSafeInteger) :
    (toIndex format (.nat n) : Script Op Reply ℕ) = pure n := by
  have htruncate : truncate (n : ℚ) = n := by simp [truncate]
  have hbound : ¬(truncate (n : ℚ) < 0 ∨ maxSafeInteger < (truncate (n : ℚ)).toNat) := by
    rw [htruncate]
    omega
  simp only [toIndex, toNumber, toPrimitive, JSValue.nat, Program.pure_bind, if_neg hbound]
  rw [htruncate, Int.toNat_natCast]

end Script

end NanoJS
