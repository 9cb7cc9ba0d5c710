import NanoJS.Buffers.FromArrayBuffer
import NanoJS.Files.Writes

/-!
# The options of `Files.write` and `Files.watchFile`

What the two functions hand to the native layer, for options of any type. `Files.write` looks for a
flag only where the data is a string, and `Files.watchFile` takes the interval of the caller only
where it is falsy. What it is to set an option is a parameter (`OptionReading`), so that the exact
conditions hold of each reading (`explicit_options_iff`).
-/

namespace NanoJS

open ByteMemory

/-! ## `App.js` -/

/-- The properties of an options object that are read. One that it does not have is undefined. -/
structure OptionValues where
  encoding : JSValue
  flag : JSValue
  interval : JSValue

/-- An options object without properties. -/
def OptionValues.none : OptionValues := ⟨.undefined, .undefined, .undefined⟩

/-- The value in the place of the options, by its type, with its own properties. -/
inductive OptionsPlace
  | callback (callbackFunc : Closure) (own : OptionValues)
  | object (own : OptionValues)
  | nullish
  | primitive (truthy : Bool)

/-- The arguments of `Files.write`. There is no path unless it is a string, no data if it is
undefined or null, and no callback if it is undefined; `length` is `data.length`. -/
structure WriteCall where
  path : Option JSString
  data : Option FromValue
  length : JSValue
  options : OptionsPlace
  callback : Option Closure

/-- What is handed to `fs.writeFileAsync`. -/
structure HandedWrite where
  path : JSString
  data : Option View
  flag : JSValue
  callback : Option Closure

/-- What is handed to `fs.watchFile`. -/
structure HandedWatch where
  path : JSString
  interval : JSValue
  callback : Option Closure

/-- `if (options.x) opts.x = options.x` -/
def JSValue.truthyOr (option value : JSValue) : JSValue := if option.truthy then option else value

namespace OptionsPlace

/-- The callback that is used. -/
def function (callback : Option Closure) : OptionsPlace → Option Closure
  | .callback callbackFunc _ => some callbackFunc
  | _ => callback

/-- The options that `Files.write` reads: its own, if the callback is in their place, and none if
they are falsy. -/
def forWrite : OptionsPlace → Option OptionValues
  | callback _ _ => some ⟨.string (jsString "utf-8"), .string (jsString "w"), .undefined⟩
  | object own => some own
  | primitive true => some .none
  | nullish | primitive false => none

/-- The object of which `Files.watchFile` reads the interval. -/
def forWatch : OptionsPlace → Option OptionValues
  | callback _ own | object own => some own
  | primitive _ => some .none
  | nullish => none

/-- The options that the caller has given. -/
def given : OptionsPlace → OptionValues
  | object own => own
  | _ => .none

end OptionsPlace

namespace Platform

variable (p : Platform)

/-- `Files.write` -/
def filesWrite (call : WriteCall) : JS HandedWrite := do
  match call.path, call.data with
  | none, _ => throw (.typeError "Path must be a string")
  | some _, none => throw (.error "data must be specified to write it into the file")
  | some path, some data =>
    match call.options.forWrite, data with
    | none, _ =>
      return ⟨path, none, .string (jsString "w"), call.options.function call.callback⟩
    | some options, .string s =>
      let dataToWrite ← p.bufferFrom (options.encoding.truthyOr (.string (jsString "utf-8")))
        .undefined (.string s)
      return ⟨path, dataToWrite, options.flag.truthyOr (.string (jsString "w")),
        call.options.function call.callback⟩
    | some _, data =>
      let dataToWrite ← p.bufferFrom (.nat 0) call.length data
      return ⟨path, dataToWrite, .string (jsString "w"), call.options.function call.callback⟩

end Platform

/-- `Files.watchFile` -/
def filesWatchFile (path : Option JSString) (options : OptionsPlace) (callback : Option Closure) :
    Except JSError HandedWatch :=
  match path, options.forWatch with
  | none, _ => .error (.typeError "invalid path type, it should be a string")
  | some _, none => .error (.typeError "Cannot read property 'interval' of undefined")
  | some path, some own =>
    .ok ⟨path, if own.interval.truthy then .nat 1000 else own.interval, options.function callback⟩

/-- The thread that the native layer starts on a write. It takes a buffer and a string for the
flag. -/
def HandedWrite.task (v8 : V8) (request : HandedWrite) : Option Task :=
  match request.data, request.flag with
  | some data, .string flag => some (writeFileAsync v8 request.path data flag)
  | _, _ => none

/-! ## Data -/

/-- The data of a write: a string or a `Buffer`. -/
inductive WrittenData
  | string (s : JSString)
  | buffer (v : View)

namespace WrittenData

def value : WrittenData → FromValue
  | string s => .string s
  | buffer v => .object (.arrayLike (ArrayLike.view v).numeric) none

def length : WrittenData → JSValue
  | string s => .nat s.length
  | buffer v => .nat v.byteLength

def IsString : WrittenData → Prop
  | string _ => True
  | buffer _ => False

/-- The call `Files.write(path, data, options, callback)`. -/
def call (data : WrittenData) (path : JSString) (options : OptionsPlace)
    (callback : Option Closure) : WriteCall :=
  ⟨some path, some data.value, data.length, options, callback⟩

/-- The second argument of the call of `Buffer.from`, for truthy options. -/
def encodingOrOffset (data : WrittenData) (options : OptionValues) : JSValue :=
  match data with
  | string _ => options.encoding.truthyOr (.string (jsString "utf-8"))
  | buffer _ => .nat 0

/-- The third one. -/
def fromLength : WrittenData → JSValue
  | string _ => .undefined
  | buffer v => .nat v.byteLength

/-- The flag that is handed on, for truthy options. -/
def flagOf (data : WrittenData) (options : OptionValues) : JSValue :=
  match data with
  | string _ => options.flag.truthyOr (.string (jsString "w"))
  | buffer _ => .string (jsString "w")

end WrittenData

/-! ## What the calls mean -/

/-- A reading of what it is to set an option: a truthy value sets it, undefined does not. -/
structure OptionReading where
  set : JSValue → Bool
  set_truthy : ∀ v, v.truthy → set v
  set_undefined : set .undefined = false

namespace OptionReading

variable (reading : OptionReading)

/-- The option that the caller has given when set, and the default otherwise. -/
def honoured (option value : JSValue) : JSValue := if reading.set option then option else value

theorem honoured_of_truthy {option : JSValue} (h : option.truthy) (value : JSValue) :
    reading.honoured option value = option := if_pos (reading.set_truthy option h)

theorem honoured_undefined (value : JSValue) : reading.honoured .undefined value = value := by
  simp [honoured, reading.set_undefined]

/-- Set options are those that are not undefined. -/
def defined : OptionReading where
  set v := v ≠ .undefined
  set_truthy v h := by
    rw [decide_eq_true_eq]
    rintro rfl
    cases h
  set_undefined := rfl

end OptionReading

namespace Platform

variable (p : Platform)

/-- What `Files.write` hands on is what the caller has given: the flag, and for strings the buffer
that `Buffer.from` makes in the encoding. -/
def WriteHonoured (reading : OptionReading) (call : WriteCall) (r : Realm) : Prop :=
  ∀ request r', (p.filesWrite call).run r = .ok request r' →
    request.flag = reading.honoured call.options.given.flag (.string (jsString "w")) ∧
      ∀ s, call.data = some (.string s) →
        (p.bufferFrom (reading.honoured call.options.given.encoding (.string (jsString "utf-8")))
          .undefined (.string s)).run r = .ok request.data r'

/-- Whatever file the thread of a call finds, it keeps its content. -/
def Appends (call : WriteCall) (r : Realm) : Prop :=
  ∀ request r', (p.filesWrite call).run r = .ok request r' →
    ∀ task ∈ request.task p.v8.toV8, ∀ (node : FileNode) told mem,
      node.content <+: (task.execute node told mem).2.1.content

end Platform

/-- What `Files.watchFile` hands on is what the caller has given. -/
def WatchHonoured (reading : OptionReading) (path : Option JSString) (options : OptionsPlace)
    (callback : Option Closure) : Prop :=
  ∀ request, filesWatchFile path options callback = .ok request →
    request.interval = reading.honoured options.given.interval (.nat 1000)

/-- The flag is not set, or the data is a string, or the flag is `'w'`. A flag that is set and falsy
is not taken either. -/
def FlagReaches (reading : OptionReading) (data : WrittenData) (flag : JSValue) : Prop :=
  reading.set flag → flag = .string (jsString "w") ∨ data.IsString ∧ flag.truthy

/-- The interval is 1000, or set and falsy; a callback has a truthy property of this name. -/
def IntervalReaches (reading : OptionReading) : OptionsPlace → Prop
  | .callback _ own => own.interval.truthy
  | .object own =>
    own.interval = .nat 1000 ∨ own.interval.truthy = false ∧ reading.set own.interval
  | .nullish => True
  | .primitive _ => False

/-! ## `Files.watchFile` -/

theorem watchHonoured_iff (reading : OptionReading) (path : JSString) (options : OptionsPlace)
    (callback : Option Closure) :
    WatchHonoured reading (some path) options callback ↔ IntervalReaches reading options := by
  cases options with
  | nullish => exact iff_of_true (fun request h => by cases h) trivial
  | primitive truthy =>
    refine iff_of_false (fun h => ?_) id
    have hinterval : JSValue.undefined = reading.honoured .undefined (.nat 1000) := h _ rfl
    rw [reading.honoured_undefined] at hinterval
    cases hinterval
  | callback callbackFunc own =>
    have hiff : WatchHonoured reading (some path) (.callback callbackFunc own) callback ↔
        (if own.interval.truthy then .nat 1000 else own.interval) =
          reading.honoured .undefined (.nat 1000) :=
      ⟨fun h => h _ rfl, fun h request hrun => by cases hrun; exact h⟩
    rw [hiff, reading.honoured_undefined, IntervalReaches]
    cases h : own.interval.truthy with
    | true => simp
    | false =>
      refine iff_of_false (fun heq => ?_) (by simp)
      rw [if_neg (by simp)] at heq
      rw [heq] at h
      cases h
  | object own =>
    have hiff : WatchHonoured reading (some path) (.object own) callback ↔
        (if own.interval.truthy then .nat 1000 else own.interval) =
          reading.honoured own.interval (.nat 1000) :=
      ⟨fun h => h _ rfl, fun h request hrun => by cases hrun; exact h⟩
    rw [hiff, IntervalReaches]
    cases h : own.interval.truthy with
    | true =>
      rw [if_pos rfl, reading.honoured_of_truthy h, eq_comm]
      simp only [reduceCtorEq, false_and, or_false]
    | false =>
      have hne : own.interval ≠ .nat 1000 := by
        intro heq
        rw [heq] at h
        cases h
      cases hset : reading.set own.interval <;> simp [OptionReading.honoured, hset, hne]

/-! ## `Files.write` -/

namespace Platform

variable (p : Platform)

/-- With truthy options, `Files.write` hands on what `Buffer.from` makes of its data. -/
theorem filesWrite_run {options : OptionsPlace} {own : OptionValues}
    (hown : options.forWrite = some own) (data : WrittenData) (path : JSString)
    (callback : Option Closure) (r : Realm) :
    (p.filesWrite (data.call path options callback)).run r =
      match (p.bufferFrom (data.encodingOrOffset own) data.fromLength data.value).run r with
      | .ok v r' => .ok ⟨path, v, data.flagOf own, options.function callback⟩ r'
      | .error e r' => .error e r' := by
  cases data with
  | string s =>
    simp only [filesWrite, WrittenData.call, hown, WrittenData.value, EStateM.run_bind,
      EStateM.run_pure, WrittenData.encodingOrOffset, WrittenData.fromLength, WrittenData.flagOf]
    cases (p.bufferFrom (own.encoding.truthyOr _) .undefined (.string s)).run r <;> rfl
  | buffer v =>
    simp only [filesWrite, WrittenData.call, hown, WrittenData.value, EStateM.run_bind,
      EStateM.run_pure, WrittenData.encodingOrOffset, WrittenData.fromLength, WrittenData.flagOf,
      WrittenData.length]
    cases (p.bufferFrom (.nat 0) (.nat v.byteLength) _).run r <;> rfl

/-- What is handed on, if anything. -/
theorem filesWrite_ok_iff {options : OptionsPlace} {own : OptionValues}
    (hown : options.forWrite = some own) (data : WrittenData) (path : JSString)
    (callback : Option Closure) {r r' : Realm} {request : HandedWrite} :
    (p.filesWrite (data.call path options callback)).run r = .ok request r' ↔
      ∃ v, (p.bufferFrom (data.encodingOrOffset own) data.fromLength data.value).run r = .ok v r' ∧
        request = ⟨path, v, data.flagOf own, options.function callback⟩ := by
  rw [p.filesWrite_run hown]
  cases (p.bufferFrom (data.encodingOrOffset own) data.fromLength data.value).run r with
  | ok v r'' => simp [eq_comm, and_comm]
  | error e r'' => simp

/-- A buffer is made of a string or a `Buffer`, or something is thrown. -/
theorem bufferFrom_ne_none (data : WrittenData) (encodingOrOffest length : JSValue)
    (r r' : Realm) : (p.bufferFrom encodingOrOffest length data.value).run r ≠ .ok none r' := by
  cases data with
  | string s =>
    simp only [WrittenData.value, bufferFrom, some_map_run]
    split <;> simp
  | buffer v =>
    simp only [WrittenData.value, bufferFrom, fromOwn, fromObject, EStateM.run_bind, some_map_run]
    split <;> rename_i h
    · split at h <;> cases h
      simp
    · simp

/-- Nothing is handed on exactly when no buffer is made of the data. -/
theorem filesWrite_refused_iff (hv : p.v8.Documented) {r : Realm} (hr : r.WellFormed)
    {options : OptionsPlace} {own : OptionValues} (hown : options.forWrite = some own)
    (data : WrittenData) (path : JSString) (callback : Option Closure) :
    (∀ request r', (p.filesWrite (data.call path options callback)).run r ≠ .ok request r') ↔
      GivesNoBuffer p.v8.toV8 (data.encodingOrOffset own) data.value := by
  rw [← p.bufferFrom_refused_iff hv hr (data.encodingOrOffset own) data.fromLength data.value]
  constructor
  · intro h v r' hrun
    exact h _ r' ((p.filesWrite_ok_iff hown data path callback).2 ⟨_, hrun, rfl⟩)
  · intro h request r' hrun
    obtain ⟨_ | v, hfrom, -⟩ := (p.filesWrite_ok_iff hown data path callback).1 hrun
    · exact p.bufferFrom_ne_none data _ _ r r' hfrom
    · exact h v r' hfrom

/-- A falsy encoding is as good as `'utf-8'`. -/
theorem bufferFrom_falsy {encoding : JSValue} (h : encoding.truthy = false) {s : JSString}
    (hs : s ≠ []) (r : Realm) :
    (p.bufferFrom encoding .undefined (.string s)).run r =
      (p.bufferFrom (.string (jsString "utf-8")) .undefined (.string s)).run r := by
  have hutf8 : encodingOf (JSValue.string (jsString "utf-8")).asString = .ok (some .utf8) := by
    decide
  have hfalsy : encodingOf encoding.asString = .ok (some .utf8) := by
    cases encoding with
    | string e =>
      obtain rfl : e = [] := by simpa [JSValue.truthy] using h
      rfl
    | _ => rfl
  simp only [bufferFrom, some_map_run, fromString_run _ hs, hutf8, hfalsy]

end Platform

/-! ## Options whose fields are strings -/

/-- Such an option. -/
def optionalString (option : Option JSString) : JSValue := (option.map .string).getD .undefined

theorem optionalString_truthyOr (option : Option JSString) (value : JSString) :
    (optionalString option).truthyOr (.string value) = .string (truthyOr option value) := by
  rcases option with _ | (_ | ⟨u, rest⟩) <;> rfl

/-- The place of the options of a call. -/
def WriteArgument.place : WriteArgument → OptionsPlace
  | .callback callbackFunc => .callback callbackFunc .none
  | .options encoding flag _ =>
    .object ⟨optionalString encoding, optionalString flag, .undefined⟩

/-- The options that `Files.write` reads. -/
def WriteArgument.own : WriteArgument → OptionValues
  | .callback _ => ⟨.string (jsString "utf-8"), .string (jsString "w"), .undefined⟩
  | .options encoding flag _ => ⟨optionalString encoding, optionalString flag, .undefined⟩

def WrittenData.writeData : WrittenData → WriteData
  | string s => .string s
  | buffer v => .arrayLike (.view v)

namespace Platform

variable (p : Platform)

/-- On such options, `Files.write` is the function of `Files.Wrappers`. -/
theorem filesWrite_eq (data : WrittenData) (path : JSString) (argument : WriteArgument)
    (r : Realm) :
    (p.filesWrite (data.call path argument.place (some argument.function))).run r =
      match (NanoJS.filesWrite p.v8.toV8 path data.writeData argument).run r with
      | .ok request r' =>
        .ok ⟨request.path, some request.data, .string request.flag, some request.callback⟩ r'
      | .error e r' => .error e r' := by
  have hown : argument.place.forWrite = some argument.own := by
    cases argument <;> rfl
  have hfunction : argument.place.function (some argument.function) = some argument.function := by
    cases argument <;> rfl
  have hencoding : argument.own.encoding.truthyOr (.string (jsString "utf-8")) =
      .string argument.encoding := by
    cases argument with
    | callback f => rfl
    | options encoding flag f => exact optionalString_truthyOr encoding _
  have hflag : data.flagOf argument.own =
      .string (argument.flag data.writeData) := by
    cases data with
    | buffer v => cases argument <;> rfl
    | string s =>
      cases argument with
      | callback f => rfl
      | options encoding flag f => exact optionalString_truthyOr flag _
  have hfrom : (p.bufferFrom (data.encodingOrOffset argument.own)
      data.fromLength data.value).run r =
      (some <$> NanoJS.bufferFrom p.v8.toV8 (data.writeData.fromCall argument) :
        JS (Option View)).run r := by
    cases data with
    | string s =>
      rw [WrittenData.encodingOrOffset, hencoding]
      rfl
    | buffer v =>
      simp only [WrittenData.value, bufferFrom, fromOwn, fromObject, fromNumericArrayLike_eq,
        EStateM.run_bind, some_map_run]
      cases h : (fromArrayLike (.view v)).run r <;>
        simp [WrittenData.writeData, WriteData.fromCall, NanoJS.bufferFrom, h]
  rw [p.filesWrite_run hown, hfrom, hflag, hfunction, some_map_run, NanoJS.filesWrite,
    EStateM.run_bind]
  cases (NanoJS.bufferFrom p.v8.toV8 (data.writeData.fromCall argument)).run r <;> rfl

/-! ## What reaches the native layer -/

/-- The options that are read are those that the caller has given, or the defaults. -/
theorem truthyOr_forWrite {options : OptionsPlace} {own : OptionValues}
    (hown : options.forWrite = some own) :
    own.flag.truthyOr (.string (jsString "w")) =
        options.given.flag.truthyOr (.string (jsString "w")) ∧
      own.encoding.truthyOr (.string (jsString "utf-8")) =
        options.given.encoding.truthyOr (.string (jsString "utf-8")) := by
  cases options with
  | callback callbackFunc own' =>
    cases hown
    exact ⟨rfl, rfl⟩
  | object own' =>
    cases hown
    exact ⟨rfl, rfl⟩
  | nullish => cases hown
  | primitive truthy =>
    cases truthy with
    | true =>
      cases hown
      exact ⟨rfl, rfl⟩
    | false => cases hown

theorem flagOf_eq_iff (reading : OptionReading) {options : OptionsPlace} {own : OptionValues}
    (hown : options.forWrite = some own) (data : WrittenData) :
    data.flagOf own = reading.honoured options.given.flag (.string (jsString "w")) ↔
      FlagReaches reading data options.given.flag := by
  cases data with
  | string s =>
    rw [WrittenData.flagOf, (truthyOr_forWrite hown).1, JSValue.truthyOr, FlagReaches]
    cases htruthy : options.given.flag.truthy with
    | true =>
      rw [if_pos rfl, reading.honoured_of_truthy htruthy]
      exact iff_of_true rfl fun _ => .inr ⟨trivial, rfl⟩
    | false =>
      refine eq_comm.trans ?_
      cases hset : reading.set options.given.flag <;> simp [OptionReading.honoured, hset]
  | buffer v =>
    rw [WrittenData.flagOf, FlagReaches]
    refine eq_comm.trans ?_
    cases hset : reading.set options.given.flag <;>
      simp [OptionReading.honoured, hset, WrittenData.IsString]

/-- The encoding reaches `Buffer.from`. -/
theorem bufferFrom_honoured (reading : OptionReading) {options : OptionsPlace} {own : OptionValues}
    (hown : options.forWrite = some own) {s : JSString} (hs : s ≠ []) (r : Realm) :
    (p.bufferFrom (own.encoding.truthyOr (.string (jsString "utf-8"))) .undefined (.string s)).run
        r =
      (p.bufferFrom (reading.honoured options.given.encoding (.string (jsString "utf-8")))
        .undefined (.string s)).run r := by
  rw [(truthyOr_forWrite hown).2, JSValue.truthyOr]
  cases htruthy : options.given.encoding.truthy with
  | true => rw [if_pos rfl, reading.honoured_of_truthy htruthy]
  | false =>
    rw [if_neg (by simp), OptionReading.honoured]
    split
    · exact (p.bufferFrom_falsy htruthy hs r).symm
    · rfl

/-- **What `Files.write` hands on is what the caller has given** exactly when no buffer is made of
the data, or the flag reaches the native layer. -/
theorem writeHonoured_iff (hv : p.v8.Documented) {r : Realm} (hr : r.WellFormed)
    (reading : OptionReading) {options : OptionsPlace} {own : OptionValues}
    (hown : options.forWrite = some own) (data : WrittenData) (path : JSString)
    (callback : Option Closure) :
    p.WriteHonoured reading (data.call path options callback) r ↔
      GivesNoBuffer p.v8.toV8 (data.encodingOrOffset own) data.value ∨
        FlagReaches reading data options.given.flag := by
  rw [← p.filesWrite_refused_iff hv hr hown data path callback, ← flagOf_eq_iff reading hown data]
  constructor
  · intro h
    by_contra! hnot
    obtain ⟨⟨request, r', hrun⟩, hflag⟩ := hnot
    obtain ⟨v, -, rfl⟩ := (p.filesWrite_ok_iff hown data path callback).1 hrun
    exact hflag (h _ r' hrun).1
  · rintro (hrefused | hflag) request r' hrun
    · exact absurd hrun (hrefused request r')
    · obtain ⟨v, hfrom, rfl⟩ := (p.filesWrite_ok_iff hown data path callback).1 hrun
      refine ⟨hflag, fun s hs => ?_⟩
      cases data with
      | string s' =>
        obtain rfl : s' = s := by simpa [WrittenData.call, WrittenData.value] using hs
        have hne : s' ≠ [] := by
          rintro rfl
          obtain ⟨e, he⟩ := fromString_nil p.v8.toV8
            (own.encoding.truthyOr (.string (jsString "utf-8"))).asString r
          simp only [WrittenData.encodingOrOffset, WrittenData.value, bufferFrom, some_map_run,
            he] at hfrom
          cases hfrom
        exact (p.bufferFrom_honoured reading hown hne r).symm.trans hfrom
      | buffer v' => cases hs

/-! ## What the thread does to the file -/

theorem task_of_string {request : HandedWrite} {v8 : V8} {task : Task}
    (h : task ∈ request.task v8) :
    ∃ data flag, request.data = some data ∧ request.flag = .string flag ∧
      task = writeFileAsync v8 request.path data flag := by
  obtain ⟨path, _ | data, flag, callback⟩ := request
  · cases h
  · cases flag with
    | string flag =>
      cases h
      exact ⟨data, flag, rfl, rfl, rfl⟩
    | _ => cases h

/-- The mode that the thread is started with. -/
theorem writeFileAsync_eq {v8 : V8} (hv : v8.Documented) (path : JSString) (data : View)
    (flag : JSString) : writeFileAsync v8 path data flag =
      .write (toUtf8String v8 path) data.store data.byteLength (flag.head? = some 0x77) := by
  have hmode : ((toUtf8String v8 flag).head? == some 0x77) = decide (flag.head? = some 0x77) := by
    have h := head_toUtf8String hv (s := flag) (u := 0x77) (by decide) (by decide)
    rw [Bool.eq_iff_iff, beq_iff_eq, decide_eq_true_iff]
    exact h
  rw [writeFileAsync, hmode, data.toInt32_byteLength]

/-- A thread that appends leaves the content in its place. -/
theorem write_append (node : FileNode) (bytes : List UInt8) :
    node.content <+: (node.write false bytes).content := by
  rw [← node.create_content]
  unfold FileNode.write
  split
  · exact List.prefix_append _ _
  · simp only [FileNode.create_content, List.prefix_rfl]

/-- A thread that does not append loses the content of a longer file. -/
theorem write_truncate (bytes : List UInt8) : ∃ node : FileNode,
    ¬node.content <+: (node.write true bytes).content := by
  refine ⟨.regular (bytes ++ [0]), fun h => ?_⟩
  have hlength := h.length_le
  simp [FileNode.regular, FileNode.write, FileNode.create] at hlength

theorem execute_write (path : CString) (store : ℕ) (length : ℕ) (mode : Bool) (node : FileNode)
    (told : ℤ) (mem : Mem) :
    ((Task.write path store length mode).execute node told mem).2.1 =
      node.write mode (slice mem store 0 length) := rfl

/-- **Appending never truncates the file** exactly when no buffer is made of the data, or it is a
string. -/
theorem appends_iff (hv : p.v8.Documented) {r : Realm} (hr : r.WellFormed)
    {options : OptionsPlace} {own : OptionValues} (hown : options.forWrite = some own)
    (data : WrittenData) (path : JSString) (callback : Option Closure) {flag : JSString}
    (hflag : options.given.flag = .string flag) (happend : flag.head? = some 0x61) :
    p.Appends (data.call path options callback) r ↔
      GivesNoBuffer p.v8.toV8 (data.encodingOrOffset own) data.value ∨ data.IsString := by
  rw [← p.filesWrite_refused_iff hv hr hown data path callback]
  have htruthy : JSValue.truthyOr (.string flag) (.string (jsString "w")) = .string flag := by
    refine if_pos (decide_eq_true ?_)
    rintro rfl
    cases happend
  constructor
  · intro h
    by_contra! hnot
    obtain ⟨⟨request, r', hrun⟩, hstring⟩ := hnot
    obtain ⟨v, hfrom, rfl⟩ := (p.filesWrite_ok_iff hown data path callback).1 hrun
    cases data with
    | string s => exact hstring trivial
    | buffer v' =>
      obtain _ | view := v
      · exact p.bufferFrom_ne_none _ _ _ _ _ hfrom
      · have hall := h _ r' hrun _ rfl
        rw [writeFileAsync_eq hv.toDocumented] at hall
        obtain ⟨node, hnode⟩ := write_truncate (slice r'.mem view.store 0 view.byteLength)
        exact hnode (hall node 0 r'.mem)
  · rintro (hrefused | hstring) request r' hrun task htask node told mem
    · exact absurd hrun (hrefused request r')
    · obtain ⟨v, -, rfl⟩ := (p.filesWrite_ok_iff hown data path callback).1 hrun
      obtain ⟨view, flag', -, hflag', rfl⟩ := task_of_string htask
      cases data with
      | string s =>
        obtain rfl : flag = flag' := by
          rw [WrittenData.flagOf, (truthyOr_forWrite hown).1, hflag, htruthy] at hflag'
          exact JSValue.string.inj hflag'
        rw [writeFileAsync_eq hv.toDocumented, happend, execute_write]
        exact write_append node _
      | buffer v' => exact hstring.elim

/-- **Explicit options.** For each reading of what it is to set an option: `Files.write` hands on
the flag and the encoding that the caller has given exactly when no buffer is made of the data, or
the flag is not set, or it is `'w'`, or the data is a string and the flag is not falsy. A flag that
appends keeps the content of every file exactly when no buffer is made of the data, or it is a
string. `Files.watchFile` hands on the interval that the caller has given exactly when it is 1000,
or set and falsy, or the callback is in the place of the options and has a truthy property
`interval`. -/
theorem explicit_options_iff (hv : p.v8.Documented) {r : Realm} (hr : r.WellFormed)
    (reading : OptionReading) (path : JSString) (options : OptionsPlace)
    (callback : Option Closure) :
    (∀ (data : WrittenData) own, options.forWrite = some own →
      (p.WriteHonoured reading (data.call path options callback) r ↔
        GivesNoBuffer p.v8.toV8 (data.encodingOrOffset own) data.value ∨
          FlagReaches reading data options.given.flag) ∧
      ∀ flag, options.given.flag = .string flag → flag.head? = some 0x61 →
        (p.Appends (data.call path options callback) r ↔
          GivesNoBuffer p.v8.toV8 (data.encodingOrOffset own) data.value ∨ data.IsString)) ∧
      (WatchHonoured reading (some path) options callback ↔ IntervalReaches reading options) := by
  refine ⟨fun data own hown => ⟨?_, fun flag hflag happend => ?_⟩, ?_⟩
  · exact p.writeHonoured_iff hv hr reading hown data path callback
  · exact p.appends_iff hv hr hown data path callback hflag happend
  · exact watchHonoured_iff reading path options callback

/-- An object with a flag and an interval. -/
def flagAndInterval (flag : String) (interval : ℕ) : OptionsPlace :=
  .object ⟨.undefined, .string (jsString flag), .nat interval⟩

/-- `Files.write('f', 'b', { flag: 'a' }, callback)` and
`Files.watchFile('f', { interval: 1000 }, callback)` -/
theorem explicit_options_string :
    reference.WriteHonoured .defined ((WrittenData.string (jsString "b")).call (jsString "f")
        (flagAndInterval "a" 1000) (some (.user 0 0))) (Realm.load fun _ _ => 0) ∧
      reference.Appends ((WrittenData.string (jsString "b")).call (jsString "f")
        (flagAndInterval "a" 1000) (some (.user 0 0))) (Realm.load fun _ _ => 0) ∧
      WatchHonoured .defined (some (jsString "f")) (flagAndInterval "a" 1000)
        (some (.user 0 0)) := by
  obtain ⟨hwrite, hwatch⟩ := reference.explicit_options_iff FillV8.reference_documented
    (Realm.freshPool_wellFormed _) .defined (jsString "f") (flagAndInterval "a" 1000)
    (some (.user 0 0))
  obtain ⟨hhonoured, happends⟩ := hwrite (.string (jsString "b")) _ rfl
  exact ⟨hhonoured.2 (.inr fun _ => .inr ⟨trivial, rfl⟩),
    (happends (jsString "a") rfl rfl).2 (.inr trivial), hwatch.2 (.inl rfl)⟩

/-- `Files.write('f', Buffer.from('b'), { flag: 'a' }, callback)` truncates the file, and
`Files.watchFile('f', { interval: 200 }, callback)` polls every second. -/
theorem explicit_options_lost :
    ¬reference.WriteHonoured .defined ((WrittenData.buffer ⟨0, 0, 1, by decide⟩).call
        (jsString "f") (flagAndInterval "a" 200) (some (.user 0 0))) (Realm.load fun _ _ => 0) ∧
      ¬reference.Appends ((WrittenData.buffer ⟨0, 0, 1, by decide⟩).call (jsString "f")
        (flagAndInterval "a" 200) (some (.user 0 0))) (Realm.load fun _ _ => 0) ∧
      ¬WatchHonoured .defined (some (jsString "f")) (flagAndInterval "a" 200)
        (some (.user 0 0)) := by
  have hr : (Realm.load fun _ _ => 0).WellFormed := Realm.freshPool_wellFormed _
  have hbuffer : ∀ encoding, ¬GivesNoBuffer V8.reference encoding
      (WrittenData.buffer ⟨0, 0, 1, by decide⟩).value := by
    intro encoding h
    have hlarge : (Number.fin (poolSize >>> 1 : ℕ)).le (.fin (1 : ℕ)) = true := h
    rw [Number.fin_le_natCast] at hlarge
    exact absurd hlarge (by decide)
  refine ⟨?_, ?_, ?_⟩
  · rw [reference.writeHonoured_iff FillV8.reference_documented hr _ rfl]
    rintro (h | h)
    · exact hbuffer _ h
    · obtain h | ⟨h, -⟩ := h rfl
      · exact absurd h (by decide)
      · exact h
  · rw [reference.appends_iff FillV8.reference_documented hr rfl _ _ _ rfl rfl]
    rintro (h | h)
    · exact hbuffer _ h
    · exact h
  · rw [watchHonoured_iff]
    rintro (h | ⟨h, -⟩)
    · exact absurd h (by decide)
    · cases h

end Platform

end NanoJS
