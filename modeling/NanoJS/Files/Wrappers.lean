import NanoJS.Buffers.Pool
import NanoJS.Files.Native

/-!
# The JavaScript half of file access

The class `Files` of `App.js`: what its functions pass on to the native functions, and what the
closures they create do when they are called (`Closure.apply`). Arguments have the types that the
functions expect; an options object has the fields that they read. The calls with other arguments
are those of `Misuse`.
-/

namespace NanoJS

open ByteMemory

/-! ## `Files.read` -/

/-- What `Files.read` passes to `fs.readFileAsync`. -/
structure ReadRequest where
  path : JSString
  buffer : View
  options : ReadOptions
  callback : Closure

def ReadRequest.task (v8 : V8) (request : ReadRequest) : Task :=
  readFileAsync v8 request.path request.buffer request.options

/-- The third argument of `Files.read`: the callback, or an options object, before the callback. -/
inductive ReadArgument
  | callback (callback : Closure)
  | options (options : ReadOptions) (callback : Option Closure)

/-- `x.y == undefined` decides for the default. -/
def orDefault (field : Option Number) (value : ℕ) : Option Number :=
  some (field.getD (.fin value))

/-- `Files.read` -/
def filesRead (path : JSString) (buffer : View) : ReadArgument → Except JSError ReadRequest
  | .callback callbackFunc =>
    .ok
      { path := path
        buffer := buffer
        options := ⟨some (.fin 0), some (.fin buffer.byteLength), some (.fin 0)⟩
        callback := .readWrapper callbackFunc buffer }
  | .options _ none => .error (.error "a callback function must be provided")
  | .options options (some callbackFunc) =>
    .ok
      { path := path
        buffer := buffer
        options := ⟨orDefault options.offset 0, orDefault options.length buffer.byteLength,
          orDefault options.position 0⟩
        callback := .readWrapper callbackFunc buffer }

/-! ## `Files.write` -/

/-- The data of `Files.write`. -/
inductive WriteData
  | string (s : JSString)
  | arrayLike (array : ArrayLike)

/-- The third argument of `Files.write`: the callback, or an options object, before the callback. -/
inductive WriteArgument
  | callback (callback : Closure)
  | options (encoding flag : Option JSString) (callback : Closure)

/-- What `Files.write` passes to `fs.writeFileAsync`. -/
structure WriteRequest where
  path : JSString
  data : View
  flag : JSString
  callback : Closure

def WriteRequest.task (v8 : V8) (request : WriteRequest) : Task :=
  writeFileAsync v8 request.path request.data request.flag

/-- `if (options.x) opts.x = options.x`: an empty string is not taken. -/
def truthyOr (option : Option JSString) (value : JSString) : JSString :=
  match option with
  | none | some [] => value
  | some s => s

namespace WriteArgument

def function : WriteArgument → Closure
  | .callback f | .options _ _ f => f

def encoding : WriteArgument → JSString
  | .callback _ => jsString "utf-8"
  | .options encoding _ _ => truthyOr encoding (jsString "utf-8")

/-- The flag is taken from the options when the data is a string. -/
def flag : WriteArgument → WriteData → JSString
  | .options _ flag _, .string _ => truthyOr flag (jsString "w")
  | _, _ => jsString "w"

end WriteArgument

/-- The call of `Buffer.from` in `Files.write`. -/
def WriteData.fromCall (data : WriteData) (argument : WriteArgument) : FromCall :=
  match data with
  | .string s => .string s (some argument.encoding)
  | .arrayLike array => .arrayLike array

/-- `Files.write` -/
def filesWrite (v8 : V8) (path : JSString) (data : WriteData) (argument : WriteArgument) :
    JS WriteRequest := do
  let dataToWrite ← bufferFrom v8 (data.fromCall argument)
  return ⟨path, dataToWrite, argument.flag data, argument.function⟩

/-! ## Other arguments -/

/-- A call of a native function with an argument that is not of the type that it casts it to, or a
call of a function of `Files` that fails one of its tests or comes to such a call. -/
inductive Misuse
  /-- `fs.readFileAsync`, `fs.writeFileAsync` or `fs.getStatsAsync`, called by the program, or by
  `Files.read` or `Files.write` with options whose fields are of other types. -/
  | native (function : String)
  /-- `Files.read` with a path that is not a string. -/
  | readPath
  /-- `Files.read` with a string, but without a `Buffer`. -/
  | readBuffer
  /-- `Files.read` with both, with no function in the place of the options, and with undefined or
  null in the place of the callback. -/
  | readCallback
  /-- `Files.read` with undefined or null in the place of the options, before a callback. -/
  | readNullish (value : String)
  /-- `Files.read` with a primitive of the type in the place of the options, before a callback. -/
  | readPrimitive (type value : String)
  /-- `Files.write` with a path that is not a string. -/
  | writePath
  /-- `Files.write` with undefined or null for the data. -/
  | writeData
  /-- `Files.write` with falsy options, or with data of which `Buffer.from` returns undefined:
  `dataToWrite` is undefined. -/
  | writeUndefined
  /-- `Files.readFile` with a path that is not a string. -/
  | readFilePath
  /-- `Files.readFile` with a string, but without a function. -/
  | readFileCallback

/-- How such a call ends. -/
def Misuse.error : Misuse → JSError
  | native function => .undefinedBehaviour function
  | readPath => .typeError "Invalid Path String"
  | readBuffer => .typeError "a Buffer must be specified as second argument"
  | readCallback => .error "a callback function must be provided"
  | readNullish value => .typeError ("Cannot read property 'offset' of " ++ value)
  | readPrimitive type value =>
    .typeError ("Cannot create property 'offset' on " ++ type ++ " '" ++ value ++ "'")
  | writePath => .typeError "Path must be a string"
  | writeData => .error "data must be specified to write it into the file"
  | writeUndefined => .undefinedBehaviour "fs.writeFileAsync"
  | readFilePath => .typeError "Invalid Path, it must be a string"
  | readFileCallback => .typeError "Invalid callback, it must be a function"

/-! ## The closures -/

/-- What calling a function value leads to: a function of the user's program is called, or a native
function starts a thread. -/
inductive Reaction
  | call (fn call : ℕ) (args : List Value)
  | start (callback : Closure) (task : Task)

/-- A property that is a number, or undefined. -/
def Prim.number? : Prim → Option Number
  | .number n => some n
  | _ => none

/-- An argument; one that is not passed is undefined. -/
def argument (args : List Value) (i : ℕ) : Value := args.getD i .undefined

/-- Calling a function value. -/
def Closure.apply (v8 : V8) : Closure → List Value → JS Reaction
  | .user fn call, args => return .call fn call args
  | .readWrapper callbackFunc buffer, args =>
    callbackFunc.apply v8 [argument args 0, .buffer buffer, argument args 1]
  | .readFileWrapper callback buffer, args =>
    callback.apply v8 [argument args 0, .buffer buffer]
  | .statArrow path callback, args => do
    let fileSize := (argument args 1).get "size"
    let buffer ← bufferAlloc fileSize.number?
    let request ← ofExcept
      (filesRead path buffer (.callback (.readFileWrapper callback buffer)))
    return .start request.callback (request.task v8)

/-- `Files.readFile`: the callback of `fs.getStatsAsync`, and what it starts. -/
def filesReadFile (v8 : V8) (path : JSString) (callback : Closure) : Closure × Task :=
  (.statArrow path callback, getStatsAsync v8 path)

end NanoJS
